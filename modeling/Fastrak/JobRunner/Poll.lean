import Fastrak.JobRunner.Place

/-!
# Polling the channels

A poll goes through the channels from the leaves to the root. On the places it moves jobs
towards the root and nothing else. A channel that has been polled has stopped: it is full
or paused, or no job in it is ready, or it waits for the first of its jobs.
-/

namespace Fastrak

namespace JobRunner

open Place

variable {now : ℚ} {p p' : Path} {s s' : Channels} {ys : List ChannelJob}
  {place place' place'' : ChannelJob → Place}

/-! ## Places -/

/-- Some jobs have moved towards the root, and still have so many channels to pass. -/
def Advances (least : ℕ) (place place' : ChannelJob → Place) : Prop :=
  ∀ job, place' job = place job ∨
    ∃ left left', place job = waiting left ∧ place' job = waiting left' ∧ least ≤ left' ∧
      left' < left

theorem Advances.refl (least : ℕ) (place : ChannelJob → Place) : Advances least place place :=
  fun _ => .inl rfl

theorem Advances.trans {least : ℕ} (h : Advances least place place')
    (h' : Advances least place' place'') : Advances least place place'' := by
  intro job
  rcases h' job with heq | ⟨left', left'', hleft', hleft'', hle, hlt⟩
  · rw [heq]
    exact h job
  · rcases h job with heq | ⟨left, left₁, hleft, hleft₁, -, hlt'⟩
    · exact .inr ⟨left', left'', heq ▸ hleft', hleft'', hle, hlt⟩
    · have heq : left₁ = left' := by simpa [hleft₁] using hleft'
      exact .inr ⟨left, left'', hleft, hleft'', hle, hlt.trans (heq ▸ hlt')⟩

theorem Advances.mono {least least' : ℕ} (h : Advances least place place') (hle : least' ≤ least) :
    Advances least' place place' := by
  intro job
  rcases h job with heq | ⟨left, left', hleft, hleft', hle', hlt⟩
  · exact .inl heq
  · exact .inr ⟨left, left', hleft, hleft', hle.trans hle', hlt⟩

theorem advances_passed {left : ℕ} (h : ∀ job ∈ ys, place job = waiting (left + 1)) :
    Advances left place (passed ys left place) := by
  intro job
  by_cases hjob : job ∈ ys
  · exact .inr ⟨left + 1, left, h job hjob, if_pos hjob, le_rfl, left.lt_succ_self⟩
  · exact .inl (if_neg hjob)

/-- The jobs of the children move up, to the channel `p` at most. -/
theorem Sound.enqueueReady (now : ℚ) (children : Subchannels) (h : Sound s place) :
    ∃ place', Sound (children.enqueueReady now p s) place' ∧
      Advances (p.length + 1) place place' := by
  induction children generalizing p s place with
  | nil => exact ⟨place, h, .refl _ _⟩
  | cons name children siblings ih ih' =>
      obtain ⟨place₁, h₁, hadv₁⟩ := ih (p := name :: p) h
      have hy := Channels.getJobsToRun_yields now (h₁.split (name :: p))
      have hpassed := advances_passed fun job hjob => (h₁.place_of_mem hy hjob).2
      obtain ⟨place₂, h₂, hadv₂⟩ := ih' (h₁.yields_enqueue hy)
      exact ⟨place₂, h₂, ((hadv₁.mono (Nat.le_succ _)).trans hpassed).trans hadv₂⟩

/-! ## Capacity and throttle -/

/-- No channel has more jobs running than its capacity allows; a negative one allows none. -/
def Within (s : Channels) : Prop :=
  ∀ p capacity, (s.chan p).capacity = some capacity → capacity ≠ 0 →
    ((s.chan p).running.card : ℤ) ≤ max capacity 0

theorem Within.yields (h : Within s) (hy : Channels.Yields now p s ys s') : Within s' := by
  intro p' capacity hcap h0
  by_cases hp : p' = p
  · subst hp
    rw [hy.chan.capacity] at hcap
    by_cases hys : ys = []
    · subst hys
      rw [hy.chan.running]
      simpa using h p' capacity hcap h0
    · exact (hy.chan.withinCapacity capacity hcap h0 hys).trans (le_max_left ..)
  · rw [hy.others p' hp] at hcap ⊢
    exact h p' capacity hcap h0

theorem Within.enqueue (h : Within s) : Within (s.enqueue ys p) := by
  intro p' capacity
  rw [Channels.chan_enqueue]
  split
  · rename_i hp
    subst hp
    exact h p' capacity
  · exact h p' capacity

theorem Within.enqueueReady (children : Subchannels) (h : Within s) (hs : Sound s place) :
    Within (children.enqueueReady now p s) := by
  induction children generalizing p s place with
  | nil => exact h
  | cons name children siblings ih ih' =>
      obtain ⟨place₁, h₁, -⟩ := hs.enqueueReady now (p := name :: p) children
      have hy := Channels.getJobsToRun_yields now (h₁.split (name :: p))
      exact ih' ((ih h hs).yields hy).enqueue (h₁.yields_enqueue hy)

/-- Pauses are where there is a throttle. -/
def Throttled (s : Channels) : Prop := ∀ p, (s.chan p).Throttled

theorem Throttled.getJobsToRun (h : Throttled s) (now : ℚ) (p : Path) :
    Throttled (s.getJobsToRun now p).2 := by
  intro p'
  by_cases hp : p' = p
  · subst hp
    exact (Channels.getJobsToRun_settled now p' s (h p')).throttled
  · rw [Channels.chan_getJobsToRun_of_ne s hp]
    exact h p'

theorem Throttled.enqueueReady (now : ℚ) (children : Subchannels) (h : Throttled s) :
    Throttled (children.enqueueReady now p s) := by
  induction children generalizing p s with
  | nil => exact h
  | cons name children siblings ih ih' =>
      refine ih' fun p' => ?_
      rw [Channels.chan_enqueue]
      have hchild := (ih (p := name :: p) h).getJobsToRun now (name :: p)
      split
      · exact hchild p
      · exact hchild p'

/-! ## Which channels a poll reaches -/

namespace Subchannels

/-- The names of the channels. -/
def names : Subchannels → List Text
  | nil => []
  | cons name _ siblings => name :: siblings.names

/-- No two channels have the same name and parent. -/
def Distinct : Subchannels → Prop
  | nil => True
  | cons name children siblings =>
      name ∉ siblings.names ∧ children.Distinct ∧ siblings.Distinct

/-- A property of all the channels, where these are below `p`. -/
def All (P : Path → Prop) : Subchannels → Path → Prop
  | nil, _ => True
  | cons name children siblings, p =>
      P (name :: p) ∧ children.All P (name :: p) ∧ siblings.All P p

theorem All.imp {P Q : Path → Prop} {children : Subchannels}
    (h : children.All P p) (hPQ : ∀ name ∈ children.names, ∀ p', name :: p <:+ p' → P p' → Q p') :
    children.All Q p := by
  induction children generalizing p with
  | nil => exact trivial
  | cons name children siblings ih ih' =>
      obtain ⟨hp, hchildren, hsiblings⟩ := h
      refine ⟨hPQ name List.mem_cons_self _ List.suffix_rfl hp, ih hchildren ?_, ih' hsiblings ?_⟩
      · exact fun name' _ p' hp' =>
          hPQ name List.mem_cons_self p' ((List.suffix_cons name' _).trans hp')
      · exact fun name' hname' => hPQ name' (List.mem_cons_of_mem _ hname')

/-- A poll of the children of `p` touches `p` and the channels below these. -/
theorem chan_enqueueReady (children : Subchannels) (p : Path) (s : Channels) (hp : p' ≠ p)
    (hnames : ∀ name ∈ children.names, ¬ name :: p <:+ p') :
    (children.enqueueReady now p s).chan p' = s.chan p' := by
  induction children generalizing p s with
  | nil => rfl
  | cons name children siblings ih ih' =>
      have hname := hnames name List.mem_cons_self
      have hne : p' ≠ name :: p := fun heq => hname (heq ▸ List.suffix_rfl)
      rw [enqueueReady]
      dsimp only
      rw [ih' p _ hp fun name' hname' => hnames name' (List.mem_cons_of_mem _ hname'),
        Channels.chan_enqueue, if_neg hp,
        Channels.chan_getJobsToRun_of_ne _ hne, ih (name :: p) s hne]
      exact fun name' _ hp' => hname ((List.suffix_cons name' _).trans hp')

/-- The channels when the child `name` of `p` has been polled. -/
def pollChild (now : ℚ) (name : Text) (children : Subchannels) (p : Path) (s : Channels) :
    Channels :=
  let s := children.enqueueReady now (name :: p) s
  let (jobs, s) := s.getJobsToRun now (name :: p)
  s.enqueue jobs p

theorem enqueueReady_cons (name : Text) (children siblings : Subchannels) :
    (cons name children siblings).enqueueReady now p s =
      siblings.enqueueReady now p (pollChild now name children p s) := rfl

variable {name name' : Text} {children siblings : Subchannels}

theorem ne_of_cons_suffix (h : name :: p <:+ p') : p' ≠ p :=
  fun heq => Channels.not_cons_suffix name p (heq ▸ h)

/-- Below a child it is polled, and then nothing happens to it. -/
theorem chan_pollChild (h : name :: p <:+ p') :
    (pollChild now name children p s).chan p' =
      ((children.enqueueReady now (name :: p) s).getJobsToRun now (name :: p)).2.chan p' := by
  rw [pollChild, Channels.chan_enqueue, if_neg (ne_of_cons_suffix h)]

theorem chan_pollChild_of_ne (hp : p' ≠ p) (h : ¬ name :: p <:+ p') :
    (pollChild now name children p s).chan p' = s.chan p' := by
  have hne : p' ≠ name :: p := fun heq => h (heq ▸ List.suffix_rfl)
  rw [pollChild, Channels.chan_enqueue, if_neg hp, Channels.chan_getJobsToRun_of_ne _ hne,
    chan_enqueueReady _ _ _ hne fun name' _ hp' => h ((List.suffix_cons name' _).trans hp')]

theorem not_suffix_of_sibling (hne : name' ≠ name) (h : name' :: p <:+ p') :
    ¬ name :: p <:+ p' := fun h' => by
  have heq := (List.suffix_of_suffix_length_le h h' (by simp)).eq_of_length (by simp)
  simp [hne] at heq

theorem chan_pollChild_sibling (hne : name' ≠ name) (h : name' :: p <:+ p') :
    (pollChild now name children p s).chan p' = s.chan p' :=
  chan_pollChild_of_ne (ne_of_cons_suffix h) (not_suffix_of_sibling hne h)

theorem chan_enqueueReady_sibling (hname : name ∉ siblings.names) (h : name :: p <:+ p') :
    (siblings.enqueueReady now p s).chan p' = s.chan p' :=
  chan_enqueueReady siblings p s (ne_of_cons_suffix h) fun _ hname' =>
    not_suffix_of_sibling (ne_of_mem_of_not_mem hname' hname).symm h

/-- A child puts the jobs that it yields into the queue of `p`, and changes nothing else
there. -/
theorem chan_pollChild_self : (pollChild now name children p s).chan p = { s.chan p with
    queue := ((children.enqueueReady now (name :: p) s).getJobsToRun now (name :: p)).1.foldl
      (fun q job => q.add (((children.enqueueReady now (name :: p) s).getJobsToRun now
        (name :: p)).2.eta job) job) (s.chan p).queue } := by
  have hne : p ≠ name :: p := fun heq => by simpa using congrArg List.length heq
  have hchild : ((children.enqueueReady now (name :: p) s).getJobsToRun now (name :: p)).2.chan p =
      s.chan p := by
    rw [Channels.chan_getJobsToRun_of_ne _ hne, chan_enqueueReady _ _ _ hne]
    exact fun name' _ hp => Channels.not_cons_suffix name p ((List.suffix_cons _ _).trans hp)
  rw [pollChild, Channels.chan_enqueue, if_pos rfl, hchild]

/-- The children of `p` change the queue of `p` only. -/
theorem chan_enqueueReady_self (now : ℚ) (children : Subchannels) (p : Path) (s : Channels) :
    ∃ queue, queue.sequential = (s.chan p).queue.sequential ∧
      (children.enqueueReady now p s).chan p = { s.chan p with queue } := by
  induction children generalizing s with
  | nil => exact ⟨_, rfl, rfl⟩
  | cons name children siblings _ ih' =>
      obtain ⟨queue, hseq, hchan⟩ := ih' (pollChild now name children p s)
      rw [chan_pollChild_self] at hchan hseq
      exact ⟨queue, hseq.trans (ChannelQueue.sequential_foldl_add ..), hchan⟩

/-- What a poll makes of a channel is what holds of every channel below `p` in the end. -/
theorem enqueueReady_all {P Q : Channel → Prop}
    (hyield : ∀ (s : Channels) p, Q (s.chan p) → P ((s.getJobsToRun now p).2.chan p))
    (hqueue : ∀ c queue, Q c → Q { c with queue })
    (children : Subchannels) (s : Channels) (hd : children.Distinct)
    (h : children.All (fun p' => Q (s.chan p')) p) :
    children.All (fun p' => P ((children.enqueueReady now p s).chan p')) p := by
  induction children generalizing p s with
  | nil => exact trivial
  | cons name children siblings ih ih' =>
      obtain ⟨hname, hchildren, hsiblings⟩ := hd
      obtain ⟨hself, hbelow, hbeside⟩ := h
      have hlast : ∀ p', name :: p <:+ p' →
          ((cons name children siblings).enqueueReady now p s).chan p' =
            ((children.enqueueReady now (name :: p) s).getJobsToRun now (name :: p)).2.chan p' :=
        fun p' hp' => by
          rw [enqueueReady_cons, chan_enqueueReady_sibling hname hp', chan_pollChild hp']
      refine ⟨?_, ?_, ih' (pollChild now name children p s) hsiblings ?_⟩
      · obtain ⟨queue, -, hchan⟩ := chan_enqueueReady_self now children (name :: p) s
        simp only [hlast _ List.suffix_rfl]
        exact hyield _ _ (hchan ▸ hqueue _ queue hself)
      · refine (ih s hchildren hbelow).imp fun name' _ p' hp' hset => ?_
        rw [hlast p' ((List.suffix_cons _ _).trans hp'),
          Channels.chan_getJobsToRun_of_ne _ (ne_of_cons_suffix hp')]
        exact hset
      · refine hbeside.imp fun name' hname' p' hp' hthr => ?_
        rw [chan_pollChild_sibling (ne_of_mem_of_not_mem hname' hname) hp']
        exact hthr

theorem All.trivial (children : Subchannels) (p : Path) : children.All (fun _ => True) p := by
  induction children generalizing p with
  | nil => exact True.intro
  | cons name children siblings ih ih' => exact ⟨True.intro, ih _, ih' _⟩

theorem All.of_forall {P : Path → Prop} (h : ∀ p', P p') (children : Subchannels) (p : Path) :
    children.All P p :=
  (All.trivial children p).imp fun _ _ p' _ _ => h p'

/-- Every channel below `p` has stopped after the poll. -/
theorem enqueueReady_stopped (now : ℚ) (children : Subchannels) (s : Channels)
    (hd : children.Distinct) :
    children.All (fun p' => ((children.enqueueReady now p s).chan p').Stopped now) p :=
  enqueueReady_all (Q := fun _ => True) (fun s p _ => Channels.getJobsToRun_stopped now p s)
    (fun _ _ _ => True.intro) children s hd (All.trivial children p)

theorem enqueueReady_settled (now : ℚ) (children : Subchannels) (s : Channels)
    (hd : children.Distinct) (h : Throttled s) :
    children.All (fun p' => ((children.enqueueReady now p s).chan p').Settled now) p :=
  enqueueReady_all (fun s p => Channels.getJobsToRun_settled now p s) (fun _ _ h => h)
    children s hd (.of_forall h children p)

end Subchannels

end JobRunner

end Fastrak
