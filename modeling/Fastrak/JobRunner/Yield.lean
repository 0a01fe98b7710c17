import Fastrak.JobRunner.ChannelEffect

/-!
# Yielding jobs

`Yields` says what the loop of `get_jobs_to_run` does when it yields some jobs: they
were ready, they come in their order, and they leave the queue and are running.
`Stopped` is why it yields no more of them.
-/

namespace Fastrak

namespace JobRunner

variable {job : ChannelJob} {now : ℚ} {p p' : Path} {s : Channels}

/-- What the loop of `get_jobs_to_run` has done to the channel when it has yielded these
jobs. -/
structure Channel.Yields (now : ℚ) (c : Channel) (ys : List ChannelJob) (c' : Channel) :
    Prop where
  nodup : ys.Nodup
  sorted : ys.Pairwise fun a b => a.sortingKeyIgnoringEta ≤ b.sortingKeyIgnoringEta
  wasReady : ∀ job ∈ ys, job ∈ c.queue.ready now
  ready : c'.queue.ready now = c.queue.ready now \ ys.toFinset
  least : ∀ a ∈ ys, ∀ b ∈ c'.queue.ready now, a.sortingKeyIgnoringEta ≤ b.sortingKeyIgnoringEta
  later : c'.queue.later now = c.queue.later now
  etaQueue : c'.queue.etaQueue.objects ⊆ c.queue.etaQueue.objects
  running : c'.running = ys.toFinset ∪ c.running
  failed : c'.failed = c.failed
  capacity : c'.capacity = c.capacity
  throttle : c'.throttle = c.throttle
  sequential : c'.queue.sequential = c.queue.sequential
  withinCapacity : ∀ capacity, c.capacity = some capacity → capacity ≠ 0 → ys ≠ [] →
    (c'.running.card : ℤ) ≤ capacity

namespace Channel

namespace Yields

variable {c c' c'' : Channel} {ys zs : List ChannelJob} {x : ℚ}

theorem refl : c.Yields now [] c where
  nodup := .nil
  sorted := .nil
  wasReady := by simp
  ready := by simp
  least := by simp
  later := rfl
  etaQueue := subset_rfl
  running := by simp
  failed := rfl
  capacity := rfl
  throttle := rfl
  sequential := rfl
  withinCapacity := by simp

theorem trans (h : c.Yields now ys c') (h' : c'.Yields now zs c'') :
    c.Yields now (ys ++ zs) c'' where
  nodup := by
    refine h.nodup.append h'.nodup fun a ha ha' => ?_
    have := h'.wasReady a ha'
    rw [h.ready] at this
    simp [ha] at this
  sorted := List.pairwise_append.mpr
    ⟨h.sorted, h'.sorted, fun a ha b hb => h.least a ha b (h'.wasReady b hb)⟩
  wasReady job hjob := by
    rcases List.mem_append.mp hjob with hjob | hjob
    · exact h.wasReady job hjob
    · have := h'.wasReady job hjob
      rw [h.ready] at this
      exact (Finset.mem_sdiff.mp this).1
  ready := by rw [h'.ready, h.ready, List.toFinset_append, sdiff_sdiff_left, Finset.sup_eq_union]
  least a ha b hb := by
    rcases List.mem_append.mp ha with ha | ha
    · rw [h'.ready] at hb
      exact h.least a ha b (Finset.mem_sdiff.mp hb).1
    · exact h'.least a ha b hb
  later := h'.later.trans h.later
  etaQueue := h'.etaQueue.trans h.etaQueue
  running := by
    rw [h'.running, h.running, List.toFinset_append, ← Finset.union_assoc,
      Finset.union_comm zs.toFinset]
  failed := h'.failed.trans h.failed
  capacity := h'.capacity.trans h.capacity
  throttle := h'.throttle.trans h.throttle
  sequential := h'.sequential.trans h.sequential
  withinCapacity n hn h0 hne := by
    by_cases hzs : zs = []
    · subst hzs
      rw [h'.running]
      simpa using h.withinCapacity n hn h0 (by simpa using hne)
    · exact h'.withinCapacity n (h.capacity.trans hn) h0 hzs

theorem of_pause (h : Yields now { c with pauseUntil := x } ys c') : c.Yields now ys c' :=
  { h with }

theorem pause (h : c.Yields now ys c') : c.Yields now ys { c' with pauseUntil := x } :=
  { h with }

theorem mem_jobs_iff (h : c.Yields now ys c') {eta : ChannelJob → Option ℚ}
    (hc : c.queue.Split eta) : job ∈ c'.queue.jobs ↔ job ∈ c.queue.jobs ∧ job ∉ ys := by
  rw [← ChannelQueue.later_union_ready now, ← ChannelQueue.later_union_ready now, h.later, h.ready]
  simp only [Finset.mem_union, Finset.mem_sdiff, List.mem_toFinset]
  constructor
  · rintro (hl | ⟨hr, hys⟩)
    · exact ⟨.inl hl, fun hys => hc.disjoint hl (h.wasReady job hys)⟩
    · exact ⟨.inr hr, hys⟩
  · rintro ⟨hl | hr, hys⟩
    · exact .inl hl
    · exact .inr ⟨hr, hys⟩

/-- The queue gives no job. -/
theorem of_pop_eq_none (h : (c.queue.pop now).1 = none) :
    c.Yields now [] { c with queue := (c.queue.pop now).2.2 } := by
  obtain ⟨hlater, -, hseq, hpop⟩ := c.queue.pop_spec now
  rw [h] at hpop
  exact {
    nodup := .nil
    sorted := .nil
    wasReady := by simp
    ready := by simpa using ChannelQueue.ready_of_objects hlater hpop.1
    least := by simp
    later := ChannelQueue.later_of_objects hlater
    etaQueue := hlater ▸ Finset.filter_subset ..
    running := by simp
    failed := rfl
    capacity := rfl
    throttle := rfl
    sequential := hseq
    withinCapacity := by simp }

/-- The queue gives a job. -/
theorem of_pop_eq_some (hcap : c.hasCapacity) (h : (c.queue.pop now).1 = some job) :
    c.Yields now [job]
      { c with queue := (c.queue.pop now).2.2, running := insert job c.running } := by
  obtain ⟨hlater, -, hseq, hpop⟩ := c.queue.pop_spec now
  rw [h] at hpop
  obtain ⟨hready, hmin, herase⟩ := hpop
  have hleft : (c.queue.pop now).2.2.ready now = (c.queue.ready now).erase job :=
    ChannelQueue.ready_of_objects hlater herase
  exact {
    nodup := by simp
    sorted := by simp
    wasReady := by simpa using hready
    ready := by rw [hleft, Finset.erase_eq]; simp
    least := by
      intro a ha b hb
      rw [List.mem_singleton.mp ha]
      rw [hleft] at hb
      exact hmin b (Finset.mem_of_mem_erase hb)
    later := ChannelQueue.later_of_objects hlater
    etaQueue := hlater ▸ Finset.filter_subset ..
    running := by simp
    failed := rfl
    capacity := rfl
    throttle := rfl
    sequential := hseq
    withinCapacity := by
      intro n hn h0 _
      have hlt := (hasCapacity_iff.mp hcap).2 n hn h0
      have := Finset.card_insert_le job c.running
      dsimp only
      omega }

end Yields

end Channel

/-! ## Among the channels -/

namespace Channels

/-- The channels after one call of `pop` on the queue of a channel. -/
def popped (now : ℚ) (p : Path) (s : Channels) : Channels :=
  { s.modify p fun c => { c with queue := ((s.chan p).queue.pop now).2.2 } with
    etaReset := s.etaReset ∪ ((s.chan p).queue.pop now).2.1.toFinset }

/-- The channels after a round of the loop of `get_jobs_to_run` that yields this job. -/
def yielded (now : ℚ) (p : Path) (s : Channels) (job : ChannelJob) : Channels :=
  (s.popped now p).modify p fun c => { c with running := insert job c.running }

theorem yieldJobs_of_full (n : ℕ) (h : (s.chan p).hasCapacity = false) :
    s.yieldJobs now p (n + 1) = ([], s) := by
  simp [yieldJobs, h]

theorem yieldJobs_of_none (n : ℕ) (h : (s.chan p).hasCapacity)
    (hpop : ((s.chan p).queue.pop now).1 = none) :
    s.yieldJobs now p (n + 1) = ([], s.popped now p) := by
  unfold yieldJobs
  rw [if_pos h]
  simp only [hpop]
  rfl

theorem yieldJobs_of_some (n : ℕ) (h : (s.chan p).hasCapacity)
    (hpop : ((s.chan p).queue.pop now).1 = some job) :
    s.yieldJobs now p (n + 1) =
      if ((s.yielded now p job).chan p).throttle ≠ 0 then
        ([job], (s.yielded now p job).modify p fun c =>
          { c with pauseUntil := now + c.throttle })
      else (job :: ((s.yielded now p job).yieldJobs now p n).1,
        ((s.yielded now p job).yieldJobs now p n).2) := by
  conv_lhs => unfold yieldJobs
  rw [if_pos h]
  simp only [hpop]
  rfl

/-- What the loop of `get_jobs_to_run` has done to the channels when it has yielded these
jobs. -/
structure Yields (now : ℚ) (p : Path) (s : Channels) (ys : List ChannelJob) (s' : Channels) :
    Prop where
  others : ∀ p', p' ≠ p → s'.chan p' = s.chan p'
  chan : (s.chan p).Yields now ys (s'.chan p)
  etaReset : s.etaReset ⊆ s'.etaReset
  ofEtaReset : ∀ job ∈ s'.etaReset,
    job ∈ s.etaReset ∨ job ∈ (s.chan p).queue.etaQueue.objects ∧ job.etaTime ≤ now
  split : (s'.chan p).queue.Split s'.eta

namespace Yields

variable {ys zs : List ChannelJob} {s' s'' : Channels} {x : ℚ}

theorem refl (h : (s.chan p).queue.Split s.eta) : Yields now p s [] s where
  others _ _ := rfl
  chan := .refl
  etaReset := subset_rfl
  ofEtaReset _ hj := .inl hj
  split := h

theorem trans (h : Yields now p s ys s') (h' : Yields now p s' zs s'') :
    Yields now p s (ys ++ zs) s'' where
  others p' hp' := (h'.others p' hp').trans (h.others p' hp')
  chan := h.chan.trans h'.chan
  etaReset := h.etaReset.trans h'.etaReset
  ofEtaReset job hjob := by
    rcases h'.ofEtaReset job hjob with hjob | ⟨hjob, hnow⟩
    · exact h.ofEtaReset job hjob
    · exact .inr ⟨h.chan.etaQueue hjob, hnow⟩
  split := h'.split

theorem of_pause (h : Yields now p (s.modify p fun c => { c with pauseUntil := x }) ys s') :
    Yields now p s ys s' := by
  obtain ⟨hothers, hchan, hreset, hof, hsplit⟩ := h
  rw [chan_modify_self] at hchan hof
  exact ⟨fun p' hp' => (hothers p' hp').trans (chan_modify_of_ne s _ hp'),
    hchan.of_pause, hreset, hof, hsplit⟩

theorem pause (h : Yields now p s ys s') (f : Channel → ℚ) :
    Yields now p s ys (s'.modify p fun c => { c with pauseUntil := f c }) where
  others p' hp' := (chan_modify_of_ne s' _ hp').trans (h.others p' hp')
  chan := by
    rw [chan_modify_self]
    exact h.chan.pause
  etaReset := h.etaReset
  ofEtaReset := h.ofEtaReset
  split := by
    rw [chan_modify_self]
    exact h.split

end Yields

theorem chan_popped_self :
    (s.popped now p).chan p = { s.chan p with queue := ((s.chan p).queue.pop now).2.2 } :=
  chan_modify_self s p fun c => { c with queue := ((s.chan p).queue.pop now).2.2 }

theorem chan_popped_of_ne (h : p' ≠ p) : (s.popped now p).chan p' = s.chan p' :=
  chan_modify_of_ne s (fun c => { c with queue := ((s.chan p).queue.pop now).2.2 }) h

theorem mem_etaReset_popped : job ∈ (s.popped now p).etaReset ↔
    job ∈ s.etaReset ∨ job ∈ (s.chan p).queue.etaQueue.objects ∧ job.etaTime ≤ now := by
  obtain ⟨-, hdue, -, -⟩ := (s.chan p).queue.pop_spec now
  rw [popped, Finset.mem_union, hdue, Finset.mem_filter]

theorem eta_popped (job : ChannelJob) : (s.popped now p).eta job =
    if job ∈ (s.chan p).queue.etaQueue.objects ∧ job.etaTime ≤ now then none
    else s.eta job := by
  simp only [eta, mem_etaReset_popped]
  by_cases h : job ∈ s.etaReset <;> simp [h]

theorem split_popped (h : (s.chan p).queue.Split s.eta) :
    ((s.popped now p).chan p).queue.Split (s.popped now p).eta := by
  obtain ⟨hlater, -, -, hpop⟩ := (s.chan p).queue.pop_spec now
  have hready : ((s.chan p).queue.pop now).2.2.queue.objects ⊆ (s.chan p).queue.ready now := by
    cases hj : ((s.chan p).queue.pop now).1 with
    | none =>
        rw [hj] at hpop
        exact hpop.1.subset
    | some job =>
        rw [hj] at hpop
        exact hpop.2.2 ▸ Finset.erase_subset ..
  rw [chan_popped_self]
  constructor
  · intro job hjob
    obtain ⟨hmem, hlt⟩ := Finset.mem_filter.mp (hlater ▸ hjob)
    rw [eta_popped, if_neg fun hdue => not_le.mpr hlt hdue.2]
    exact h.etaQueue job hmem
  · intro job hjob
    rw [eta_popped]
    split
    · rfl
    · rename_i hdue
      have := hready hjob
      simp only [ChannelQueue.ready, Finset.mem_union, Finset.mem_filter] at this
      exact h.queue job (this.resolve_right hdue)

/-- A round in which the queue gives no job. -/
theorem yields_popped (h : (s.chan p).queue.Split s.eta)
    (hpop : ((s.chan p).queue.pop now).1 = none) : Yields now p s [] (s.popped now p) where
  others p' hp' := chan_popped_of_ne hp'
  chan := by
    rw [chan_popped_self]
    exact .of_pop_eq_none hpop
  etaReset _ hjob := mem_etaReset_popped.mpr (.inl hjob)
  ofEtaReset _ hjob := mem_etaReset_popped.mp hjob
  split := split_popped h

/-- A round that yields a job. -/
theorem yields_yielded (h : (s.chan p).queue.Split s.eta) (hcap : (s.chan p).hasCapacity)
    (hpop : ((s.chan p).queue.pop now).1 = some job) :
    Yields now p s [job] (s.yielded now p job) where
  others p' hp' := (chan_modify_of_ne _ _ hp').trans (chan_popped_of_ne hp')
  chan := by
    rw [yielded, chan_modify_self, chan_popped_self]
    exact .of_pop_eq_some hcap hpop
  etaReset _ hjob := mem_etaReset_popped.mpr (.inl hjob)
  ofEtaReset _ hjob := mem_etaReset_popped.mp hjob
  split := by
    rw [yielded, chan_modify_self]
    exact split_popped h

theorem yieldJobs_yields (n : ℕ) (s : Channels) (h : (s.chan p).queue.Split s.eta) :
    Yields now p s (s.yieldJobs now p n).1 (s.yieldJobs now p n).2 := by
  induction n generalizing s with
  | zero => exact .refl h
  | succ n ih =>
      by_cases hcap : (s.chan p).hasCapacity
      · cases hpop : ((s.chan p).queue.pop now).1 with
        | none =>
            rw [yieldJobs_of_none n hcap hpop]
            exact yields_popped h hpop
        | some job =>
            have hround := yields_yielded h hcap hpop
            rw [yieldJobs_of_some n hcap hpop]
            split
            · exact hround.pause fun c => now + c.throttle
            · exact hround.trans (ih _ hround.split)
      · rw [yieldJobs_of_full n (by simpa using hcap)]
        exact .refl h

theorem getJobsToRun_yields (now : ℚ) (h : (s.chan p).queue.Split s.eta) :
    Yields now p s (s.getJobsToRun now p).1 (s.getJobsToRun now p).2 := by
  unfold getJobsToRun
  dsimp only
  split
  · split
    · exact .refl h
    · refine .of_pause (x := 0) (yieldJobs_yields _ _ ?_)
      rw [chan_modify_self]
      exact h
  · exact yieldJobs_yields _ s h

theorem chan_yieldJobs_of_ne (n : ℕ) (s : Channels) (h : p' ≠ p) :
    (s.yieldJobs now p n).2.chan p' = s.chan p' := by
  induction n generalizing s with
  | zero => rfl
  | succ n ih =>
      by_cases hcap : (s.chan p).hasCapacity
      · cases hpop : ((s.chan p).queue.pop now).1 with
        | none =>
            rw [yieldJobs_of_none n hcap hpop]
            exact chan_popped_of_ne h
        | some job =>
            have hround : (s.yielded now p job).chan p' = s.chan p' :=
              (chan_modify_of_ne _ _ h).trans (chan_popped_of_ne h)
            rw [yieldJobs_of_some n hcap hpop]
            split
            · exact (chan_modify_of_ne (s.yielded now p job)
                (fun c => { c with pauseUntil := now + c.throttle }) h).trans hround
            · exact (ih _).trans hround
      · rw [yieldJobs_of_full n (by simpa using hcap)]

/-- A poll of a channel changes this channel only. -/
theorem chan_getJobsToRun_of_ne (s : Channels) (h : p' ≠ p) :
    (s.getJobsToRun now p).2.chan p' = s.chan p' := by
  unfold getJobsToRun
  dsimp only
  split
  · split
    · rfl
    · exact (chan_yieldJobs_of_ne _ _ h).trans (chan_modify_of_ne _ _ h)
  · exact chan_yieldJobs_of_ne _ _ h

end Channels

/-! ## When a channel stops -/

namespace Channel

/-- The channel is paused, because it has yielded a job now or not long ago. -/
def Paused (now : ℚ) (c : Channel) : Prop :=
  c.throttle ≠ 0 ∧ (c.pauseUntil = now + c.throttle ∨ c.pauseUntil ≠ 0 ∧ now < c.pauseUntil)

/-- Why a channel yields no job. -/
def Stopped (now : ℚ) (c : Channel) : Prop :=
  c.hasCapacity = false ∨ c.Paused now ∨
    (∀ job ∈ c.queue.etaQueue.objects, now < job.etaTime) ∧
      (c.queue.queue.objects = ∅ ∨ c.queue.mustWait)

end Channel

namespace Channels

theorem yieldJobs_stopped (n : ℕ) (s : Channels)
    (hn : ((s.chan p).queue.ready now).card < n) :
    ((s.yieldJobs now p n).2.chan p).Stopped now := by
  induction n generalizing s with
  | zero => simp at hn
  | succ n ih =>
      by_cases hcap : (s.chan p).hasCapacity
      · obtain ⟨hlater, -, -, hspec⟩ := (s.chan p).queue.pop_spec now
        cases hpop : ((s.chan p).queue.pop now).1 with
        | none =>
            rw [hpop] at hspec
            rw [yieldJobs_of_none n hcap hpop, Channel.Stopped, chan_popped_self]
            refine .inr (.inr ⟨fun job hjob => ?_, hspec.2.imp (fun hempty => ?_) id⟩)
            · exact (ChannelQueue.mem_later.mp (hlater ▸ hjob)).2
            · exact hspec.1.trans hempty
        | some job =>
            rw [hpop] at hspec
            rw [yieldJobs_of_some n hcap hpop]
            split
            · rename_i hthrottle
              refine .inr (.inl ?_)
              rw [Channel.Paused, chan_modify_self]
              exact ⟨hthrottle, .inl rfl⟩
            · refine ih _ ?_
              rw [yielded, chan_modify_self, chan_popped_self]
              dsimp only
              rw [ChannelQueue.ready_of_objects hlater hspec.2.2]
              have := Finset.card_erase_lt_of_mem hspec.1
              omega
      · rw [yieldJobs_of_full n (by simpa using hcap)]
        exact .inl (by simpa using hcap)

theorem card_ready_le (now : ℚ) (q : ChannelQueue) : (q.ready now).card ≤ q.len := by
  refine (Finset.card_le_card ChannelQueue.ready_subset).trans ?_
  rw [ChannelQueue.jobs, ChannelQueue.len, PriorityQueue.len_eq_card, PriorityQueue.len_eq_card]
  exact Finset.card_union_le ..

theorem getJobsToRun_stopped (now : ℚ) (p : Path) (s : Channels) :
    ((s.getJobsToRun now p).2.chan p).Stopped now := by
  have hcard := card_ready_le now (s.chan p).queue
  unfold getJobsToRun
  dsimp only
  split
  · rename_i hpaused
    split
    · rename_i hlt
      exact .inr (.inl ⟨hpaused.1, .inr ⟨hpaused.2, hlt⟩⟩)
    · refine yieldJobs_stopped _ _ ?_
      rw [chan_modify_self]
      exact Nat.lt_succ_of_le hcard
  · exact yieldJobs_stopped _ _ (Nat.lt_succ_of_le hcard)

/-- The pauses of a throttled channel end after the poll. -/
theorem yieldJobs_pause (n : ℕ) (s : Channels) (h : (s.chan p).pauseUntil = 0)
    (hthrottle : 0 ≤ (s.chan p).throttle) :
    let c := (s.yieldJobs now p n).2.chan p
    c.pauseUntil ≠ 0 → c.throttle ≠ 0 ∧ now < c.pauseUntil := by
  induction n generalizing s with
  | zero => exact fun hne => absurd h hne
  | succ n ih =>
      by_cases hcap : (s.chan p).hasCapacity
      · cases hpop : ((s.chan p).queue.pop now).1 with
        | none =>
            rw [yieldJobs_of_none n hcap hpop, chan_popped_self]
            exact fun hne => absurd h hne
        | some job =>
            have hround : (s.yielded now p job).chan p = { s.chan p with
                queue := ((s.chan p).queue.pop now).2.2
                running := insert job (s.chan p).running } := by
              rw [yielded, chan_modify_self, chan_popped_self]
            rw [yieldJobs_of_some n hcap hpop]
            split
            · rename_i hne
              intro c _
              have hpos : (0 : ℚ) < ((s.chan p).throttle : ℚ) := by
                rw [hround] at hne
                exact_mod_cast lt_of_le_of_ne hthrottle (Ne.symm hne)
              simp only [c, chan_modify_self, hround] at hne ⊢
              exact ⟨hne, lt_add_of_pos_right now hpos⟩
            · exact ih _ (by rw [hround]; exact h) (by rw [hround]; exact hthrottle)
      · rw [yieldJobs_of_full n (by simpa using hcap)]
        exact fun hne => absurd h hne

end Channels

/-- A channel is paused only where there is a throttle. -/
def Channel.Throttled (c : Channel) : Prop :=
  0 ≤ c.throttle ∧ (c.pauseUntil ≠ 0 → c.throttle ≠ 0)

/-- A channel after a poll: it has stopped, and if it is paused, the pause is not over. -/
structure Channel.Settled (now : ℚ) (c : Channel) : Prop where
  stopped : c.Stopped now
  nonneg : 0 ≤ c.throttle
  pause : c.pauseUntil ≠ 0 → c.throttle ≠ 0 ∧ now < c.pauseUntil

theorem Channel.Settled.throttled {c : Channel} (h : c.Settled now) : c.Throttled :=
  ⟨h.nonneg, fun hpause => (h.pause hpause).1⟩

namespace Channels

theorem throttle_yieldJobs (n : ℕ) (s : Channels) :
    ((s.yieldJobs now p n).2.chan p).throttle = (s.chan p).throttle := by
  induction n generalizing s with
  | zero => rfl
  | succ n ih =>
      by_cases hcap : (s.chan p).hasCapacity
      · cases hpop : ((s.chan p).queue.pop now).1 with
        | none => rw [yieldJobs_of_none n hcap hpop, chan_popped_self]
        | some job =>
            have hround : ((s.yielded now p job).chan p).throttle = (s.chan p).throttle := by
              rw [yielded, chan_modify_self, chan_popped_self]
            rw [yieldJobs_of_some n hcap hpop]
            split
            · rw [chan_modify_self]
              exact hround
            · exact (ih _).trans hround
      · rw [yieldJobs_of_full n (by simpa using hcap)]

theorem throttle_getJobsToRun (now : ℚ) (p : Path) (s : Channels) :
    ((s.getJobsToRun now p).2.chan p).throttle = (s.chan p).throttle := by
  unfold getJobsToRun
  dsimp only
  split
  · split
    · rfl
    · rw [throttle_yieldJobs, chan_modify_self]
  · exact throttle_yieldJobs _ s

theorem getJobsToRun_settled (now : ℚ) (p : Path) (s : Channels) (h : (s.chan p).Throttled) :
    ((s.getJobsToRun now p).2.chan p).Settled now := by
  obtain ⟨hnonneg, hpause⟩ := h
  refine ⟨getJobsToRun_stopped now p s, (throttle_getJobsToRun now p s).symm ▸ hnonneg, ?_⟩
  unfold getJobsToRun
  dsimp only
  split
  · rename_i hpaused
    split
    · rename_i hlt
      exact fun _ => ⟨hpaused.1, hlt⟩
    · refine yieldJobs_pause _ _ ?_ ?_ <;> rw [chan_modify_self]
      exact hnonneg
  · rename_i hpaused
    refine yieldJobs_pause _ _ ?_ hnonneg
    by_contra hne
    exact hpaused ⟨hpause hne, hne⟩

/-- A channel gives nothing while it is full, paused or its queue gives nothing. -/
theorem getJobsToRun_eq_nil {t : ℚ} (h : (s.chan p).hasCapacity = false ∨
    ((s.chan p).throttle ≠ 0 ∧ (s.chan p).pauseUntil ≠ 0 ∧ t < (s.chan p).pauseUntil) ∨
    ((s.chan p).queue.pop t).1 = none) : (s.getJobsToRun t p).1 = [] := by
  have hyield : ∀ s : Channels, ((s.chan p).hasCapacity = false ∨
      ((s.chan p).queue.pop t).1 = none) → ∀ n, (s.yieldJobs t p (n + 1)).1 = [] := by
    intro s hs n
    rcases hs with hfull | hnone
    · rw [yieldJobs_of_full n hfull]
    · by_cases hcap : (s.chan p).hasCapacity
      · rw [yieldJobs_of_none n hcap hnone]
      · rw [yieldJobs_of_full n (by simpa using hcap)]
  unfold getJobsToRun
  dsimp only
  split
  · split
    · rfl
    · rename_i hle
      refine hyield _ ?_ _
      rw [chan_modify_self]
      exact h.imp_right fun h => h.resolve_left fun h => hle h.2.2
  · rename_i hpaused
    exact hyield _ (h.imp_right fun h => h.resolve_left fun h => hpaused ⟨h.1, h.2.1⟩) _

end Channels

/-! ## Asking again -/

/-- What comes before the sooner of two times comes before both, where 0 is no time. -/
theorem of_sooner {t w x : ℚ} (hx : 0 < x)
    (h : (if w = 0 then x else min w x) = 0 ∨ t < if w = 0 then x else min w x) :
    (w = 0 ∨ t < w) ∧ t < x := by
  by_cases hw : w = 0
  · rw [if_pos hw] at h
    exact ⟨.inl hw, h.resolve_left hx.ne'⟩
  · rw [if_neg hw] at h
    have hlt : t < min w x := h.resolve_left fun h0 => by
      rcases min_choice w x with heq | heq <;> rw [heq] at h0
      · exact hw h0
      · exact hx.ne' h0
    exact ⟨.inr (lt_min_iff.mp hlt).1, (lt_min_iff.mp hlt).2⟩

namespace ChannelQueue

variable {q : ChannelQueue} {t : ℚ}

/-- A queue that gives no job gives none as long as no eta passes. -/
theorem pop_eq_none (h : ∀ job ∈ q.etaQueue.objects, t < job.etaTime)
    (h' : q.queue.objects = ∅ ∨ q.mustWait) : (q.pop t).1 = none := by
  have hlater : q.later t = q.etaQueue.objects := Finset.filter_true_of_mem h
  have hready : q.ready t = q.queue.objects := by
    rw [ready, Finset.filter_eq_empty_iff.mpr fun job hjob => not_le.mpr (h job hjob),
      Finset.union_empty]
  cases hpop : (q.pop t).1 with
  | none => rfl
  | some job =>
      exfalso
      obtain ⟨he, hr, -, hs⟩ := q.released_spec t
      obtain ⟨-, -, -, hspec⟩ := q.pop_spec t
      rw [hpop, hready] at hspec
      rcases h' with hempty | hwait
      · simp [hempty] at hspec
      · have hwait' : (q.released t).mustWait := by
          rw [mustWait_iff] at hwait ⊢
          rw [he, hr, hs, hlater, hready]
          exact hwait
        have hw : (q.releaseDue t q.etaQueue.len).2.mustWait := hwait'
        simp [pop, hw] at hpop

/-- Before the wakeup time of the queue no eta passes. -/
theorem of_getWakeupTime {wakeupTime : ℚ} (hpos : ∀ job ∈ q.etaQueue.objects, 0 < job.etaTime)
    (h : q.getWakeupTime wakeupTime = 0 ∨ t < q.getWakeupTime wakeupTime) :
    (wakeupTime = 0 ∨ t < wakeupTime) ∧ ∀ job ∈ q.etaQueue.objects, t < job.etaTime := by
  unfold getWakeupTime at h
  cases hg : q.etaQueue.getitem with
  | none =>
      rw [hg] at h
      simp [PriorityQueue.getitem_eq_none_iff.mp hg, h]
  | some first =>
      rw [hg] at h
      obtain ⟨hfirst, hmin⟩ := PriorityQueue.getitem_eq_some hg
      obtain ⟨hw, hlt⟩ := of_sooner (hpos first hfirst) h
      exact ⟨hw, fun job hjob =>
        hlt.trans_le (ChannelJob.etaTime_le_of_sortingKey_le (hmin job hjob))⟩

end ChannelQueue

end JobRunner

end Fastrak
