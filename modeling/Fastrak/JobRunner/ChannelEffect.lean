import Fastrak.JobRunner.Channel

/-!
# What the channel operations do

One lemma for each operation says which jobs are in the queue of a channel, running in it
and failed in it afterwards.
-/

namespace Fastrak

namespace JobRunner

variable {job : ChannelJob} {now : ℚ} {p p' : Path} {s : Channels}

theorem ChannelJob.etaTime_le_of_sortingKey_le {job other : ChannelJob}
    (h : job.sortingKey ≤ other.sortingKey) : job.etaTime ≤ other.etaTime := by
  rcases Prod.Lex.toLex_le_toLex.mp h with hlt | ⟨heq, -⟩
  · exact hlt.le
  · exact heq.le

/-! ## The queue of a channel -/

namespace ChannelQueue

variable {q : ChannelQueue}

/-- The jobs in the queue. -/
def jobs (q : ChannelQueue) : Finset ChannelJob := q.etaQueue.objects ∪ q.queue.objects

/-- The jobs that a call of `pop` at this time chooses from. -/
def ready (now : ℚ) (q : ChannelQueue) : Finset ChannelJob :=
  q.queue.objects ∪ q.etaQueue.objects.filter (·.etaTime ≤ now)

/-- The jobs that wait for their eta at this time. -/
def later (now : ℚ) (q : ChannelQueue) : Finset ChannelJob :=
  q.etaQueue.objects.filter (now < ·.etaTime)

theorem mem_jobs : job ∈ q.jobs ↔ job ∈ q.etaQueue.objects ∨ job ∈ q.queue.objects :=
  Finset.mem_union

theorem mem_later {now : ℚ} : job ∈ q.later now ↔ job ∈ q.etaQueue.objects ∧ now < job.etaTime :=
  Finset.mem_filter

@[simp] theorem contains_iff : q.contains job ↔ job ∈ q.jobs := by
  simp [contains, mem_jobs, PriorityQueue.contains_iff]

@[simp] theorem jobs_add (eta : Option ℚ) (q : ChannelQueue) (job : ChannelJob) :
    (q.add eta job).jobs = insert job q.jobs := by
  unfold add jobs
  split <;> simp

@[simp] theorem jobs_remove (q : ChannelQueue) (job : ChannelJob) :
    (q.remove job).jobs = q.jobs.erase job := by
  simp [remove, jobs, Finset.erase_union_distrib]

@[simp] theorem sequential_add (eta : Option ℚ) (q : ChannelQueue) (job : ChannelJob) :
    (q.add eta job).sequential = q.sequential := by
  unfold add
  split <;> rfl

@[simp] theorem sequential_remove (q : ChannelQueue) (job : ChannelJob) :
    (q.remove job).sequential = q.sequential := rfl

theorem later_union_due (now : ℚ) (q : ChannelQueue) :
    q.later now ∪ q.etaQueue.objects.filter (·.etaTime ≤ now) = q.etaQueue.objects := by
  ext job
  simp only [later, Finset.mem_union, Finset.mem_filter, ← and_or_left, and_iff_left_iff_imp]
  exact fun _ => lt_or_ge now job.etaTime

theorem later_union_ready (now : ℚ) (q : ChannelQueue) :
    q.later now ∪ q.ready now = q.jobs := by
  rw [ready, Finset.union_left_comm, later_union_due, Finset.union_comm, jobs]

theorem ready_subset {now : ℚ} {q : ChannelQueue} : q.ready now ⊆ q.jobs :=
  later_union_ready now q ▸ Finset.subset_union_right

/-- The first loop of `pop`, when it may run long enough. -/
theorem releaseDue_spec (n : ℕ) (q : ChannelQueue) (hn : q.etaQueue.objects.card ≤ n) :
    (q.releaseDue now n).2.etaQueue.objects = q.later now ∧
      (q.releaseDue now n).2.queue.objects = q.ready now ∧
      (q.releaseDue now n).1.toFinset = q.etaQueue.objects.filter (·.etaTime ≤ now) ∧
      (q.releaseDue now n).2.sequential = q.sequential := by
  induction n generalizing q with
  | zero =>
      have hq : q.etaQueue.objects = ∅ := Finset.card_eq_zero.mp (Nat.le_zero.mp hn)
      simp [releaseDue, later, ready, hq]
  | succ n ih =>
      unfold releaseDue
      cases hg : q.etaQueue.getitem with
      | none =>
          have hq : q.etaQueue.objects = ∅ := PriorityQueue.getitem_eq_none_iff.mp hg
          simp [later, ready, hq]
      | some first =>
          obtain ⟨hfirst, hmin⟩ := PriorityQueue.getitem_eq_some hg
          by_cases hle : first.etaTime ≤ now
          · cases hp : q.etaQueue.pruned.pop with
            | mk popped etaQueue =>
                cases popped with
                | none =>
                    have hempty := (PriorityQueue.pop_eq_none (congrArg Prod.fst hp)).1
                    rw [PriorityQueue.objects_pruned] at hempty
                    simp [hempty] at hfirst
                | some job =>
                    obtain ⟨hjob, hjmin, herase⟩ := PriorityQueue.pop_eq_some (congrArg Prod.fst hp)
                    rw [PriorityQueue.objects_pruned] at hjob hjmin herase
                    rw [hp] at herase
                    have hdue : job.etaTime ≤ now :=
                      (ChannelJob.etaTime_le_of_sortingKey_le (hjmin first hfirst)).trans hle
                    have hcard : etaQueue.objects.card ≤ n := by
                      have := Finset.card_erase_of_mem hjob
                      rw [herase]
                      omega
                    obtain ⟨he, hr, hd, hs⟩ :=
                      ih { q with etaQueue := etaQueue, queue := q.queue.add job } hcard
                    simp only [hle, if_true]
                    refine ⟨he.trans ?_, hr.trans ?_, ?_, hs⟩
                    · ext a
                      simp only [later, herase, Finset.mem_filter, Finset.mem_erase]
                      constructor
                      · exact fun h => ⟨h.1.2, h.2⟩
                      · exact fun h => ⟨⟨fun ha => absurd (ha ▸ h.2) (not_lt.mpr hdue), h.1⟩, h.2⟩
                    · ext a
                      simp only [ready, herase, PriorityQueue.objects_add, Finset.mem_union,
                        Finset.mem_insert, Finset.mem_filter, Finset.mem_erase]
                      by_cases ha : a = job
                      · simp [ha, hjob, hdue]
                      · simp [ha]
                    · rw [List.toFinset_cons, hd]
                      ext a
                      simp only [herase, Finset.mem_insert, Finset.mem_filter, Finset.mem_erase]
                      by_cases ha : a = job
                      · simp [ha, hjob, hdue]
                      · simp [ha]
          · have hall : ∀ a ∈ q.etaQueue.objects, now < a.etaTime := fun a ha =>
              (not_le.mp hle).trans_le (ChannelJob.etaTime_le_of_sortingKey_le (hmin a ha))
            have hdue : q.etaQueue.objects.filter (·.etaTime ≤ now) = ∅ :=
              Finset.filter_eq_empty_iff.mpr fun a ha => not_le.mpr (hall a ha)
            have hlater : q.later now = q.etaQueue.objects := Finset.filter_true_of_mem hall
            simp [hle, ready, hdue, hlater]

/-- The queue after the loop of `pop`. -/
def released (now : ℚ) (q : ChannelQueue) : ChannelQueue :=
  (q.releaseDue now q.etaQueue.len).2

theorem released_spec (now : ℚ) (q : ChannelQueue) :
    (q.released now).etaQueue.objects = q.later now ∧
      (q.released now).queue.objects = q.ready now ∧
      (q.releaseDue now q.etaQueue.len).1.toFinset = q.etaQueue.objects.filter (·.etaTime ≤ now) ∧
      (q.released now).sequential = q.sequential :=
  releaseDue_spec _ q q.etaQueue.len_eq_card.ge

/-- What `pop` returns and what it leaves. -/
theorem pop_spec (now : ℚ) (q : ChannelQueue) :
    (q.pop now).2.2.etaQueue.objects = q.later now ∧
      (q.pop now).2.1.toFinset = q.etaQueue.objects.filter (·.etaTime ≤ now) ∧
      (q.pop now).2.2.sequential = q.sequential ∧
      match (q.pop now).1 with
      | none => (q.pop now).2.2.queue.objects = q.ready now ∧
          (q.ready now = ∅ ∨ (q.pop now).2.2.mustWait)
      | some job => job ∈ q.ready now ∧
          (∀ a ∈ q.ready now, job.sortingKeyIgnoringEta ≤ a.sortingKeyIgnoringEta) ∧
          (q.pop now).2.2.queue.objects = (q.ready now).erase job := by
  obtain ⟨he, hr, hd, hs⟩ := q.released_spec now
  unfold pop released at *
  generalize q.releaseDue now q.etaQueue.len = released at *
  obtain ⟨due, q'⟩ := released
  dsimp only at *
  by_cases hw : q'.mustWait
  · simp [hw, he, hr, hd, hs]
  · rw [if_neg hw]
    dsimp only
    refine ⟨he, hd, hs, ?_⟩
    cases hp : q'.queue.pop.1 with
    | none =>
        obtain ⟨hempty, hpop⟩ := PriorityQueue.pop_eq_none hp
        exact ⟨hpop.trans (hempty.symm.trans hr), .inl (hr.symm.trans hempty)⟩
    | some job =>
        obtain ⟨hmem, hmin, hpop⟩ := PriorityQueue.pop_eq_some hp
        exact ⟨hr ▸ hmem, fun a ha => hmin a (hr ▸ ha), hr ▸ hpop⟩

/-- Whether a sequential queue waits depends on the jobs in it only. -/
theorem mustWait_iff : q.mustWait ↔ q.sequential ∧ q.queue.objects.Nonempty ∧
    ∃ first ∈ q.etaQueue.objects, (∀ a ∈ q.etaQueue.objects, first.sortingKey ≤ a.sortingKey) ∧
      ∀ b ∈ q.queue.objects, first.sortingKeyIgnoringEta < b.sortingKeyIgnoringEta := by
  unfold mustWait
  cases he : q.etaQueue.getitem with
  | none => simp [PriorityQueue.getitem_eq_none_iff.mp he]
  | some first =>
      obtain ⟨hfirst, hmin⟩ := PriorityQueue.getitem_eq_some he
      cases hg : q.queue.getitem with
      | none => simp [PriorityQueue.getitem_eq_none_iff.mp hg]
      | some b =>
          obtain ⟨hb, hbmin⟩ := PriorityQueue.getitem_eq_some hg
          simp only [Bool.and_eq_true, decide_eq_true_eq]
          refine and_congr_right fun _ => ⟨fun hlt => ⟨⟨b, hb⟩, first, hfirst, hmin, ?_⟩, ?_⟩
          · exact fun b' hb' => hlt.trans_le (hbmin b' hb')
          · rintro ⟨-, first', hfirst', hmin', hlt⟩
            have heq : first.sortingKey = first'.sortingKey :=
              (hmin first' hfirst').antisymm (hmin' first hfirst)
            have hkey : first.sortingKeyIgnoringEta = first'.sortingKeyIgnoringEta :=
              congrArg (fun key => (ofLex key).2) heq
            exact hkey ▸ hlt b hb

/-- Jobs with an eta and jobs without one are kept apart. -/
structure Split (eta : ChannelJob → Option ℚ) (q : ChannelQueue) : Prop where
  etaQueue : ∀ job ∈ q.etaQueue.objects, given (eta job)
  queue : ∀ job ∈ q.queue.objects, given (eta job) = false

variable {eta : ChannelJob → Option ℚ}

theorem Split.add (h : q.Split eta) (job : ChannelJob) : (q.add (eta job) job).Split eta := by
  unfold ChannelQueue.add
  split <;> rename_i hg
  · refine ⟨fun a ha => ?_, h.queue⟩
    obtain rfl | ha : a = job ∨ a ∈ q.etaQueue.objects := by simpa using ha
    · exact hg
    · exact h.etaQueue a ha
  · refine ⟨h.etaQueue, fun a ha => ?_⟩
    obtain rfl | ha : a = job ∨ a ∈ q.queue.objects := by simpa using ha
    · exact Bool.eq_false_iff.mpr hg
    · exact h.queue a ha

theorem Split.remove (h : q.Split eta) (job : ChannelJob) : (q.remove job).Split eta := by
  constructor
  · intro a ha
    rw [ChannelQueue.remove, PriorityQueue.objects_remove] at ha
    exact h.etaQueue a (Finset.mem_of_mem_erase ha)
  · intro a ha
    rw [ChannelQueue.remove, PriorityQueue.objects_remove] at ha
    exact h.queue a (Finset.mem_of_mem_erase ha)

theorem Split.notMem (h : q.Split eta) (hjob : job ∈ q.etaQueue.objects) :
    job ∉ q.queue.objects := by
  intro hq
  have := h.queue job hq
  simp [h.etaQueue job hjob] at this

theorem Split.disjoint (h : q.Split eta) (hl : job ∈ q.later now) : job ∉ q.ready now := by
  obtain ⟨hjob, hlt⟩ := Finset.mem_filter.mp hl
  simp only [ready, Finset.mem_union, Finset.mem_filter, not_or, not_and, not_le]
  exact ⟨h.notMem hjob, fun _ => hlt⟩

/-- What is ready when exactly the jobs with a later eta are set aside. -/
theorem ready_of_objects {q' : ChannelQueue} {ready : Finset ChannelJob}
    (h : q'.etaQueue.objects = q.later now) (h' : q'.queue.objects = ready) :
    q'.ready now = ready := by
  rw [ChannelQueue.ready, h, h', Finset.union_eq_left, Finset.filter_eq_empty_iff.mpr]
  · exact Finset.empty_subset _
  · exact fun job hjob => not_le.mpr (Finset.mem_filter.mp hjob).2

theorem later_of_objects {q' : ChannelQueue} (h : q'.etaQueue.objects = q.later now) :
    q'.later now = q.later now := by
  rw [later, h, Finset.filter_true_of_mem]
  exact fun job hjob => (Finset.mem_filter.mp hjob).2

end ChannelQueue

theorem Channel.hasCapacity_iff {c : Channel} : c.hasCapacity ↔
    (c.queue.sequential = false ∨ c.failed = ∅) ∧
      ∀ capacity, c.capacity = some capacity → capacity ≠ 0 →
        (c.running.card : ℤ) < capacity := by
  unfold hasCapacity
  cases hs : c.queue.sequential <;> by_cases hf : c.failed = ∅ <;>
    cases hc : c.capacity <;>
    simp [hf, Finset.nonempty_iff_ne_empty, or_iff_not_imp_left]

/-! ## Marking a job -/

namespace Channels

@[simp] theorem chan_modify_self (s : Channels) (p : Path) (f : Channel → Channel) :
    (s.modify p f).chan p = f (s.chan p) :=
  Function.update_self ..

theorem chan_modify_of_ne (s : Channels) (f : Channel → Channel) (h : p' ≠ p) :
    (s.modify p f).chan p' = s.chan p' :=
  Function.update_of_ne h ..

theorem chan_modify (s : Channels) (p p' : Path) (f : Channel → Channel) :
    (s.modify p f).chan p' = if p' = p then f (s.chan p') else s.chan p' := by
  by_cases h : p' = p
  · subst h
    rw [chan_modify_self, if_pos rfl]
  · rw [chan_modify_of_ne s f h, if_neg h]

@[simp] theorem etaReset_modify (s : Channels) (p : Path) (f : Channel → Channel) :
    (s.modify p f).etaReset = s.etaReset := rfl

@[simp] theorem eta_modify (s : Channels) (p : Path) (f : Channel → Channel) :
    (s.modify p f).eta = s.eta := rfl

theorem not_cons_suffix (name : Text) (p : Path) : ¬ name :: p <:+ p := fun h => by
  simpa using h.length_le

theorem chan_remove (job : ChannelJob) (p p' : Path) (s : Channels) :
    (s.remove job p).chan p' = if p' <:+ p then (s.chan p').remove job else s.chan p' := by
  induction p generalizing s with
  | nil => simp [remove, chan_modify]
  | cons name p ih =>
      rw [remove, ih, chan_modify]
      simp only [List.suffix_cons_iff]
      by_cases h : p' = name :: p
      · subst h
        simp [not_cons_suffix]
      · simp [h]

theorem chan_removeAbove (job : ChannelJob) (p p' : Path) (s : Channels) :
    (s.removeAbove job p).chan p' =
      if p' <:+ p ∧ p' ≠ p then (s.chan p').remove job else s.chan p' := by
  cases p with
  | nil =>
      have : ¬ (p' <:+ [] ∧ p' ≠ []) := by simp
      rw [if_neg this]
      rfl
  | cons name p =>
      rw [removeAbove, chan_remove]
      congr 1
      simp only [List.suffix_cons_iff, eq_iff_iff]
      constructor
      · exact fun h => ⟨.inr h, fun heq => not_cons_suffix name p (heq ▸ h)⟩
      · exact fun h => h.1.resolve_left h.2

@[simp] theorem etaReset_remove (job : ChannelJob) (p : Path) (s : Channels) :
    (s.remove job p).etaReset = s.etaReset := by
  induction p generalizing s with
  | nil => rfl
  | cons name p ih => rw [remove, ih, etaReset_modify]

@[simp] theorem etaReset_removeAbove (job : ChannelJob) (p : Path) (s : Channels) :
    (s.removeAbove job p).etaReset = s.etaReset := by
  cases p with
  | nil => rfl
  | cons name p => exact etaReset_remove job p s

/-- A job that is not running in a channel or above it is marked as running in all of
them. -/
theorem chan_setRunning (job : ChannelJob) (p p' : Path) (s : Channels)
    (h : ∀ p', p' <:+ p → job ∉ (s.chan p').running) :
    (s.setRunning job p).chan p' =
      if p' <:+ p then (s.markRunning job p').chan p' else s.chan p' := by
  induction p generalizing s with
  | nil =>
      rw [setRunning, if_neg (h [] List.suffix_rfl), markRunning, chan_modify]
      by_cases hp : p' = []
      · simp [hp, markRunning]
      · simp [hp]
  | cons name p ih =>
      rw [setRunning, if_neg (h _ List.suffix_rfl), ih]
      · simp only [List.suffix_cons_iff, markRunning, chan_modify_self]
        by_cases hp : p' = name :: p
        · subst hp
          simp [not_cons_suffix]
        · simp [hp, chan_modify_of_ne]
      · intro p' hp'
        have hne : p' ≠ name :: p := fun heq => not_cons_suffix name p (heq ▸ hp')
        rw [markRunning, chan_modify_of_ne _ _ hne]
        exact h p' (List.suffix_cons_iff.mpr (.inr hp'))

@[simp] theorem etaReset_setRunning (job : ChannelJob) (p : Path) (s : Channels) :
    (s.setRunning job p).etaReset = s.etaReset := by
  induction p generalizing s with
  | nil =>
      unfold setRunning
      split <;> rfl
  | cons name p ih =>
      unfold setRunning
      split
      · rfl
      · rw [ih, markRunning, etaReset_modify]

end Channels

end JobRunner

end Fastrak
