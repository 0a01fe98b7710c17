import Fastrak.Order.RequestEffect

/-!
# The steps of the system

`Steps` puts together what requests and calls do: a request serves its response, a
call that returns has its effect, and a call that raises leaves the records as they
were, with its job gone from the queue. The invariants of the system are proved by
cases on it.
-/

namespace Fastrak

open Transaction Run

variable {st : Settings} {ac : Accounting} {orderId : String} {s t : OrderSlice}

/-- What an event does to the records of an order, and its outcome. -/
inductive Steps (st : Settings) (ac : Accounting) (orderId : String) (s : OrderSlice) :
    Event → Outcome → OrderSlice → Prop
  | request (r : Request) (response : Response) (t : OrderSlice)
      (h : Serves st ac orderId s r response t) :
      Steps st ac orderId s (.request r) (.response response) t
  | ignored (e : Event) (hc : e.call? s = none) : Steps st ac orderId s e .ignored s
  | raised (e : Event) (c : Call) (base t : OrderSlice) (message : String)
      (hc : e.call? s = some (c, base)) (h : (c.body st ac).run base = .error message t) :
      Steps st ac orderId s e (.raised message) (base.rollback t)
  | returned (e : Event) (c : Call) (base : OrderSlice) (o : Order) (t : OrderSlice)
      (hc : e.call? s = some (c, base)) (ho : base.order = some o)
      (h : c.Effect st ac base o t) : Steps st ac orderId s e .done t
  /-- The order does not exist. -/
  | vacuous (e : Event) (c : Call) (base : OrderSlice) (hc : e.call? s = some (c, base))
      (ho : base.order = none) : Steps st ac orderId s e .done base

theorem transact_steps {e : Event} {c : Call} {base : OrderSlice}
    (hc : e.call? s = some (c, base)) :
    Steps st ac orderId s e (transact (c.body st ac) base).1
      (transact (c.body st ac) base).2 := by
  unfold transact
  rcases atomic_cases OrderSlice.rollback (c.body st ac) base with
    ⟨⟨⟩, t, hrun, h⟩ | ⟨message, t, hrun, h⟩
  · rw [h]
    cases ho : base.order with
    | none =>
        obtain rfl := Call.run_ok_of_none ho hrun
        exact .vacuous e c _ hc ho
    | some o => exact .returned e c base o t hc ho (Call.effect ho hrun)
  · rw [h]
    exact .raised e c base t message hc hrun

/-- The inversion of a step. -/
theorem perform_steps (st : Settings) (ac : Accounting) (orderId : String) (e : Event)
    (s : OrderSlice) :
    Steps st ac orderId s e (perform st ac orderId e s).1 (perform st ac orderId e s).2 := by
  cases e with
  | request r => exact .request r _ _ (handle_serves orderId r s)
  | job i =>
      simp only [perform, Event.call?]
      cases h : s.jobs[i]? with
      | none => exact .ignored _ (by simp [Event.call?, h])
      | some job => exact transact_steps (by simp [Event.call?, h])
  | button b => exact transact_steps rfl
  | addTrips tripsIds => exact transact_steps rfl
  | editCancellationReason reason => exact transact_steps rfl
  | editRefundReason comment => exact transact_steps rfl
  | payInvoice amount => exact transact_steps rfl
  | auditAndLockMove => exact transact_steps rfl

/-- The run of a job calls what the job asks for. -/
theorem Event.call?_job {i : ℕ} {c : Call} {base : OrderSlice} :
    (Event.job i).call? s = some (c, base) ↔
      ∃ job, s.jobs[i]? = some job ∧ job.call = c ∧ s.dropJob i = base := by
  simp [Event.call?]

/-- The records a call is made on are those before the event, less the job that is
run. -/
theorem Event.call?_base {e : Event} {c : Call} {base : OrderSlice}
    (h : e.call? s = some (c, base)) :
    base = s ∨ ∃ i job, e = .job i ∧ s.jobs[i]? = some job ∧ c = job.call ∧
      base = s.dropJob i := by
  cases e with
  | request r => simp [Event.call?] at h
  | job i =>
      obtain ⟨job, hj, rfl, rfl⟩ := Event.call?_job.mp h
      exact .inr ⟨i, job, rfl, hj, rfl, rfl⟩
  | _ =>
      obtain ⟨-, rfl⟩ : _ ∧ s = base := by simpa [Event.call?] using h
      exact .inl rfl

/-- The order, the moves and the payments are there for a call as before. -/
theorem Event.call?_records {e : Event} {c : Call} {base : OrderSlice}
    (h : e.call? s = some (c, base)) :
    base.order = s.order ∧ base.moves = s.moves ∧ base.payments = s.payments ∧
      base.computedFor = s.computedFor ∧ ∀ job ∈ base.jobs, job ∈ s.jobs := by
  rcases Event.call?_base h with rfl | ⟨i, job, -, -, -, rfl⟩
  · exact ⟨rfl, rfl, rfl, rfl, fun _ h => h⟩
  · exact ⟨rfl, rfl, rfl, rfl, fun _ h => List.mem_of_mem_eraseIdx h⟩

/-- Without an order nothing is queued and nothing is written, until a create request
makes the order. -/
theorem Steps.of_none {e : Event} {out : Outcome} (ho : s.order = none)
    (h : Steps st ac orderId s e out t) :
    (t.order = none ∧ ∀ job ∈ t.jobs, job ∈ s.jobs) ∨
      ∃ kw lines, e = .request (.create (some kw)) ∧
        t = { s with order := some (newOrder orderId kw lines) } := by
  cases h with
  | request r _ _ h =>
      rcases h.of_none ho with rfl | ⟨kw, lines, rfl, ht⟩
      · exact .inl ⟨ho, fun _ hj => hj⟩
      · exact .inr ⟨kw, lines, rfl, ht⟩
  | ignored => exact .inl ⟨ho, fun _ hj => hj⟩
  | raised _ c base _ _ hc | vacuous _ c _ hc =>
      obtain ⟨hbase, -, -, -, hjobs⟩ := Event.call?_records hc
      exact .inl ⟨hbase.trans ho, hjobs⟩
  | returned _ c base _ _ hc ho' => simp [(Event.call?_records hc).1, ho] at ho'

/-- A call that succeeds on an order has its effect. -/
theorem Steps.effect {e : Event} {out : Outcome} {c : Call} {base : OrderSlice} {o : Order}
    (h : Steps st ac orderId s e out t) (hc : e.call? s = some (c, base))
    (hsucc : out.isSuccess = true) (ho : base.order = some o) : c.Effect st ac base o t := by
  cases h with
  | request | ignored => simp_all [Event.call?]
  | raised => cases hsucc
  | vacuous _ c' base' hc' hn =>
      obtain ⟨rfl, rfl⟩ : c' = c ∧ t = base := by simpa [hc'] using hc
      simp [ho] at hn
  | returned _ c' base' o' _ hc' ho' h =>
      obtain ⟨rfl, rfl⟩ : c' = c ∧ base' = base := by simpa [hc'] using hc
      obtain rfl : o' = o := Option.some.inj (ho'.symm.trans ho)
      exact h

end Fastrak
