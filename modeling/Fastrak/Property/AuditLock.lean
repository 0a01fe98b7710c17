import Fastrak.Account.AuditLock
import Fastrak.GroupInvoice.Effect
import Fastrak.GroupInvoice.PenaltyEffect
import Fastrak.Order.MoveRun
import Fastrak.Withdraw.Effect

/-!
# The audit lock

A write on one account move raises exactly if the move is locked, and a write on several
always raises, since the lock of several records cannot be read. So the lock is exact on the
recordsets of one record at most, and on those with a locked one. No operation writes on a
locked move past the lock, and over every run of each of the systems the locked moves keep
all that they hold but the amount that payments have settled.
-/

namespace Fastrak

open Transaction Run

/-- The locked moves are kept. -/
def lockFrame : Frame (List Move) where
  rel := KeepsLocked
  refl := .refl
  trans := .trans

/-! ## Recordsets -/

namespace AccountMove

variable {moves : List Move} {ids : List ℕ} {vals : Move → Move} {i : ℕ} {m : Move}

/-- A write raises and changes nothing if one of the records is locked, and is carried out on
all of them otherwise. -/
def LockIsExact (moves : List Move) (ids : List ℕ) (vals : Move → Move) : Prop :=
  if HasLocked moves ids then ∃ e, (write ids vals).run moves = .error e moves
  else (write ids vals).run moves = .ok ⟨⟩ (Table.assign ids vals moves)

theorem hasLocked_singleton_iff (hm : moves[i]? = some m) :
    HasLocked moves [i] ↔ m.auditAndLock = true := by
  simp [HasLocked, hm]

theorem lockIsExact_iff (h : IsRecordset moves ids) :
    LockIsExact moves ids vals ↔ ids.length ≤ 1 ∨ HasLocked moves ids := by
  rcases ids with _ | ⟨i, _ | ⟨j, ids⟩⟩
  · refine iff_of_true ?_ (.inl (Nat.zero_le 1))
    rw [LockIsExact, if_neg (by rintro ⟨_, hi, -⟩; cases hi)]
    exact write_nil_run
  · refine iff_of_true ?_ (.inl le_rfl)
    obtain ⟨m, hm⟩ : ∃ m, moves[i]? = some m :=
      ⟨_, List.getElem?_eq_getElem (h.lt_length i List.mem_cons_self)⟩
    rw [LockIsExact, write_singleton_run hm, Table.assign_singleton]
    split
    · next hlock =>
        rw [if_pos ((hasLocked_singleton_iff hm).mp hlock)]
        exact ⟨_, rfl⟩
    · next hlock => rw [if_neg fun hm' => hlock ((hasLocked_singleton_iff hm).mpr hm')]
  · have hseveral : 1 < (i :: j :: ids).length := Nat.succ_lt_succ (Nat.succ_pos _)
    rw [LockIsExact, write_run_of_several h hseveral]
    split
    · next hlock => exact iff_of_true ⟨_, rfl⟩ (.inr hlock)
    · next hlock =>
        exact iff_of_false (by rintro ⟨⟩) (not_or.mpr ⟨Nat.not_le.mpr hseveral, hlock⟩)

/-! The operations on recordsets keep the locked moves. -/

/-- Where the lock can be read and is not set, no record of the recordset is locked. -/
theorem not_locked_of_auditAndLock (h : auditAndLock moves ids = .ok false) (hi : i ∈ ids)
    (hm : moves[i]? = some m) : ¬ m.auditAndLock := by
  obtain ⟨record, hrecord, hlocked⟩ := except_bind_ok_iff.mp h
  have hlocked := except_pure_eq_ok_iff.mp hlocked
  have hmem : m ∈ browse moves ids := List.mem_filterMap.mpr ⟨i, hi, hm⟩
  cases record with
  | none =>
      rw [eq_nil_of_single hrecord] at hmem
      cases hmem
  | some record =>
      rw [eq_singleton_of_single hrecord, List.mem_singleton] at hmem
      subst hmem
      exact Bool.eq_false_iff.mp hlocked

theorem respects_write (ids : List ℕ) (vals : Move → Move) :
    Respects lockFrame (write ids vals) := by
  intro moves
  rw [write, get_bind_run]
  refine rel_bind (respects_lift _ moves) fun locked moves' hlift => ?_
  obtain ⟨hread, rfl⟩ := lift_run_ok_iff.mp hlift
  refine rel_bind (respects_raiseIf _ _ moves) fun _ moves' hraise => ?_
  obtain ⟨hlock, rfl⟩ := raiseIf_run_ok_iff.mp hraise
  obtain rfl := Bool.eq_false_iff.mpr hlock
  intro i m hm hlocked
  refine ⟨m.reconciled, ?_⟩
  have hnot : i ∉ ids := fun hi => not_locked_of_auditAndLock hread hi hm hlocked
  change (Table.assign ids vals moves)[i]? = some m
  rw [Table.getElem?_assign, hm, Option.map_some, if_neg hnot]

theorem respects_auditAndLockMove (ids : List ℕ) : Respects lockFrame (auditAndLockMove ids) :=
  respects_bind (respects_raiseIf _ _) fun _ => respects_write ids Move.lock

theorem respects_buttonCancel (cancellationReason : ℕ → Option ℕ) (cancel : Move → Move)
    (ids : List ℕ) : Respects lockFrame (buttonCancel cancellationReason cancel ids) := by
  have hwrite : Respects lockFrame (write ids cancel) := respects_write ids cancel
  unfold buttonCancel
  split
  · exact respects_bind (respects_lift _) fun _ => respects_bind (respects_raiseIf _ _) fun _ =>
      hwrite
  · exact hwrite

theorem respects_perform (e : Event) : Respects lockFrame (perform e) := by
  cases e with
  | write ids vals => exact respects_write ids vals
  | auditAndLockMove ids => exact respects_auditAndLockMove ids
  | buttonCancel cancellationReason cancel ids =>
      exact respects_buttonCancel cancellationReason cancel ids

end AccountMove

/-! ## Penalty invoices -/

namespace PenaltyGroup

variable {st : PenaltySettings} {ac : Accounting}

def movesLock : Frame PenaltyRecords := lockFrame.comap PenaltyRecords.moves

theorem respects_of_links {α : Type} {x : Tx α} (hx : Respects linksFrame x) :
    Respects movesLock x :=
  hx.mono fun s t h => by
    have hmoves : t.moves = s.moves := congrArg Prod.fst h
    change KeepsLocked s.moves t.moves
    rw [hmoves]
    exact .refl _

theorem respects_refuse (reason : Option String) : Respects movesLock (refuse reason) := by
  cases reason with
  | none => exact respects_pure _
  | some message => exact respects_throw message

/-- A write checks the lock of the move that it writes on. -/
theorem respects_writeMove (inv : ℕ) (reason : Move → Option String) (f : Move → Move) :
    Respects movesLock (writeMove inv reason f) := by
  intro s
  rw [writeMove, get_bind_run]
  cases hm : s.moves[inv]? with
  | none => exact movesLock.refl s
  | some m =>
      dsimp only
      cases reason m with
      | some message => exact movesLock.refl s
      | none =>
          change movesLock.rel s (stop ((do
            raiseIf m.auditAndLock "Can't Edit Move After Being Audited"
            modify (PenaltyRecords.modifyMove inv f) : Tx PUnit).run s))
          refine rel_bind (respects_raiseIf _ _ s) fun _ t hraise => ?_
          obtain ⟨hlock, rfl⟩ := raiseIf_run_ok_iff.mp hraise
          exact KeepsLocked.modify (by simpa [hm] using hlock)

theorem respects_createMove (vals : Move) : Respects movesLock (createMove ac vals) :=
  respects_bind (respects_refuse _) fun _ => respects_bind respects_get fun _ =>
    respects_bind (respects_modify fun _ => KeepsLocked.append [vals]) fun _ => respects_pure _

theorem respects_createInvoiceOf (id : ℕ) (g : PenaltyGroup) :
    Respects movesLock (createInvoiceOf st ac id g) :=
  respects_bind (respects_lift _) fun vals => respects_bind (respects_createMove vals) fun inv =>
    respects_bind (respects_writeMove inv _ _) fun _ =>
      respects_modify fun s => KeepsLocked.refl s.moves

theorem respects_updateInvoiceOf (g : PenaltyGroup) (inv : ℕ) :
    Respects movesLock (updateInvoiceOf st ac g inv) := by
  refine respects_bind respects_get fun s => ?_
  split
  · exact respects_throw _
  · exact respects_bind (respects_raiseIf _ _) fun _ =>
      respects_bind (respects_writeMove inv _ _) fun _ =>
        respects_bind (respects_writeMove inv _ _) fun _ =>
          respects_bind (respects_lift _) fun _ =>
            respects_bind (respects_writeMove inv _ _) fun _ => respects_writeMove inv _ _

theorem respects_createPenaltyInvoice (ids : List ℕ) :
    Respects movesLock (createPenaltyInvoice st ac ids) := by
  induction ids with
  | nil => exact respects_pure _
  | cons id ids ih =>
      refine respects_bind ?_ fun _ => ih
      refine respects_bind (respects_of_links (respects_self id)) fun g =>
        respects_bind (respects_raiseIf _ _) fun _ => ?_
      split
      · exact respects_createInvoiceOf id g
      · exact respects_updateInvoiceOf g _

theorem respects_perform (e : Event) : Respects movesLock (perform st ac e) := by
  cases e with
  | calculatePenalty today ids => exact respects_of_links (respects_calculatePenalty today ids)
  | scheduledPenaltyCalculator today =>
      exact respects_of_links (respects_scheduledPenaltyCalculator today)
  | confirmGroupInvoicePayment ids =>
      exact respects_of_links (respects_confirmGroupInvoicePayment ids)
  | createPenaltyInvoice ids => exact respects_createPenaltyInvoice ids
  | pay inv amount =>
      exact respects_modify fun s => MoveStep.keepsLocked (.settle inv amount : MoveStep ac _ _)

end PenaltyGroup

/-! ## The discount wizard -/

namespace GroupInvoice

variable {δ : Type} [LinearOrder δ] {st : Settings} {ac : Accounting} {s : GroupInvoices δ}

def movesOf (s : GroupInvoices δ) : List Move := s.invoices.map (·.move)

def movesLock : Frame (GroupInvoices δ) := lockFrame.comap movesOf

theorem movesOf_modifyMove (inv : ℕ) (f : Move → Move) (s : GroupInvoices δ) :
    movesOf (s.modifyMove inv f) = (movesOf s).modify inv f := by
  have hmove : ∀ r : DatedMove δ, DatedMove.move { r with move := f r.move } = f r.move :=
    fun _ => rfl
  exact Table.map_modify_of_comm hmove s.invoices inv

theorem getElem?_movesOf (s : GroupInvoices δ) (inv : ℕ) : (movesOf s)[inv]? = s.invoice? inv :=
  List.getElem?_map ..

theorem respects_self (id : ℕ) : Respects movesLock (self id : Tx δ _) := by
  refine respects_bind respects_get fun s => ?_
  split
  · exact respects_pure _
  · exact respects_throw _

theorem respects_generateGroupInvoice (ids : List ℕ) :
    Respects movesLock (generateGroupInvoice ac ids : Tx δ _) := by
  have hgroup : ∀ id (f : GroupInvoice δ → GroupInvoice δ),
      Respects movesLock (modify (GroupInvoices.modifyGroup id f) : Tx δ PUnit) :=
    fun id f => respects_modify fun s => KeepsLocked.refl (movesOf s)
  induction ids with
  | nil => exact respects_pure _
  | cons id ids ih =>
      refine respects_bind ?_ fun _ => ih
      exact respects_bind (respects_self id) fun _ => respects_bind respects_get fun _ =>
        respects_bind (hgroup id _) fun _ => respects_bind respects_get fun _ => hgroup id _

/-- The wizard checks the lock of the invoice that it adds the line to. -/
theorem rel_updateInvoiceLines {inv : ℕ} {m : Move} (hm : s.invoice? inv = some m)
    (discount : ℚ) :
    movesLock.rel s (stop ((updateInvoiceLines st ac inv m discount).run s)) := by
  refine rel_bind (respects_lift _ s) fun line t hlift => ?_
  obtain ⟨-, rfl⟩ := lift_run_ok_iff.mp hlift
  refine rel_bind (respects_raiseIf _ _ s) fun _ t hraise => ?_
  obtain ⟨hlock, rfl⟩ := raiseIf_run_ok_iff.mp hraise
  cases ac.refuseLines (m.addLine line) with
  | some message => exact movesLock.refl s
  | none =>
      change KeepsLocked (movesOf s) (movesOf (s.modifyMove inv fun m => m.addLine line))
      rw [movesOf_modifyMove]
      exact .modify (by rw [getElem?_movesOf, hm]; simpa using hlock)

theorem respects_updateInvoices (id : ℕ) (w : DiscountWizard) (invs : List ℕ) :
    Respects movesLock (updateInvoices st ac id w invs : Tx δ _) := by
  induction invs with
  | nil => exact respects_pure _
  | cons inv invs ih =>
      intro s
      rw [updateInvoices, get_bind_run]
      cases hm : s.invoice? inv with
      | none => exact movesLock.refl s
      | some m =>
          refine rel_bind (rel_updateInvoiceLines hm _) fun _ t _ => ?_
          refine respects_bind ?_ (fun _ => ih) t
          exact respects_modify fun s => KeepsLocked.refl (movesOf s)

theorem respects_updateGroupInvoice (id : ℕ) (w : DiscountWizard) :
    Respects movesLock (updateGroupInvoice st ac id w : Tx δ _) := by
  refine respects_bind (respects_raiseIf _ _) fun _ => respects_bind (respects_self id) fun g =>
    respects_bind (respects_raiseIf _ _) fun _ => ?_
  split
  · exact respects_updateInvoices id w _
  · exact respects_updateInvoices id w _

theorem respects_perform (e : Event δ) : Respects movesLock (perform st ac e) := by
  cases e with
  | create customer fromDate toDate | editDates id fromDate toDate =>
      rw [perform]
      split
      · exact respects_modify fun s => KeepsLocked.refl (movesOf s)
      · exact respects_throw _
  | unlink id => exact respects_modify fun s => KeepsLocked.refl (movesOf s)
  | generate ids => exact respects_generateGroupInvoice ids
  | discount id w => exact respects_updateGroupInvoice id w
  | newInvoice r =>
      refine respects_modify fun s => ?_
      change KeepsLocked (movesOf s) (List.map _ (s.invoices ++ [r]))
      rw [List.map_append]
      exact .append _
  | pay inv amount =>
      refine respects_modify fun s => ?_
      change KeepsLocked (movesOf s) (movesOf (s.modifyMove inv (Move.reconcile amount)))
      rw [movesOf_modifyMove]
      exact MoveStep.keepsLocked (.settle inv amount : MoveStep ac _ _)

end GroupInvoice

/-! ## Runs -/

/-- What every step keeps is kept by every run. -/
theorem run_keepsLocked {σ ε : Type} (step : σ → ε → σ) (moves : σ → List Move)
    (hstep : ∀ s e, KeepsLocked (moves s) (moves (step s e))) (s : σ) (es : List ε) :
    KeepsLocked (moves s) (moves (run step s es)) :=
  relation (I := fun _ => True) (C := fun _ _ => True)
    (R := fun s t => KeepsLocked (moves s) (moves t)) (fun _ _ _ _ => True.intro)
    (fun s => .refl (moves s)) KeepsLocked.trans (fun s e _ _ => hstep s e) True.intro
    (Meets.trivial s es)

/-- Whatever is done in which order, the locked moves are kept. -/
structure RunsKeepLocked (ac : Accounting) : Prop where
  moves : ∀ (moves : List Move) (es : List AccountMove.Event),
    KeepsLocked moves (run AccountMove.step moves es)
  orders : ∀ (st : Settings) (db : Database) (es : List (String × Event)) (id : String),
    KeepsLocked (db id).moves (run (dbStep st ac) db es id).moves
  penalties : ∀ (st : PenaltySettings) (s : PenaltyRecords) (es : List PenaltyGroup.Event),
    KeepsLocked s.moves (run (PenaltyGroup.step st ac) s es).moves
  groupInvoices : ∀ (δ : Type) [LinearOrder δ] (st : Settings) (s : GroupInvoices δ)
    (es : List (GroupInvoice.Event δ)), KeepsLocked (GroupInvoice.movesOf s)
      (GroupInvoice.movesOf (run (GroupInvoice.step st ac) s es))
  withdrawals : ∀ (st : WithdrawSettings) (s : WithdrawSlice) (es : List Withdraw.Event),
    KeepsLocked s.moves (run (Withdraw.step st ac) s es).moves

theorem runsKeepLocked (ac : Accounting) : RunsKeepLocked ac where
  moves moves es :=
    run_keepsLocked AccountMove.step id
      (fun moves e => rel_atomic (AccountMove.respects_perform e) moves) moves es
  orders st db es id := (run_moveSteps st ac db es id).keepsLocked
  penalties st s es :=
    run_keepsLocked (PenaltyGroup.step st ac) PenaltyRecords.moves
      (fun s e => rel_atomic (PenaltyGroup.respects_perform e) s) s es
  groupInvoices _ _ st s es :=
    run_keepsLocked (GroupInvoice.step st ac) GroupInvoice.movesOf
      (fun s e => rel_atomic (GroupInvoice.respects_perform e) s) s es
  withdrawals st s es :=
    run_keepsLocked (Withdraw.step st ac) WithdrawSlice.moves
      (fun s e => (Withdraw.step_moves st ac s e).keepsLocked) s es

namespace AccountMove

/-- The lock is exact on the recordsets of one record at most and on those with a locked
record, and on no others; it is never passed in a run. -/
theorem audit_lock_exact_iff {moves : List Move} {ids : List ℕ} (h : IsRecordset moves ids)
    (vals : Move → Move) (ac : Accounting) :
    (LockIsExact moves ids vals ↔ ids.length ≤ 1 ∨ HasLocked moves ids) ∧ RunsKeepLocked ac :=
  ⟨lockIsExact_iff h, runsKeepLocked ac⟩

/-- Two entries that have not been audited. -/
def unaudited : List Move :=
  [{ moveType := .entry, ref := "A" }, { moveType := .entry, ref := "B" }]

theorem isRecordset_unaudited : IsRecordset unaudited [0, 1] := ⟨by decide, by decide⟩

theorem audit_lock_exact_iff_unaudited :
    (LockIsExact unaudited [0, 1] Move.lock ↔
      [0, 1].length ≤ 1 ∨ HasLocked unaudited [0, 1]) ∧ RunsKeepLocked .sample :=
  audit_lock_exact_iff isRecordset_unaudited Move.lock .sample

/-- A write on both of them raises. -/
theorem unaudited_batch_raises :
    IsRecordset unaudited [0, 1] ∧ ¬ HasLocked unaudited [0, 1] ∧
      (write [0, 1] Move.lock).run unaudited =
        .error "Expected singleton: account.move" unaudited ∧
      ¬ LockIsExact unaudited [0, 1] Move.lock := by
  have hlocked : ¬ HasLocked unaudited [0, 1] := by decide
  refine ⟨isRecordset_unaudited, hlocked, rfl, ?_⟩
  rw [LockIsExact, if_neg hlocked]
  rintro ⟨⟩

end AccountMove

end Fastrak
