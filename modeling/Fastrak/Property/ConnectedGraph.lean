import Fastrak.JobRunner.DelayableEffect

/-!
# The connected graph

`delay` on an object makes one graph of the jobs in all objects that can be reached from it
(`connectGraphs_spec`). The order that chains, groups and `on_done` ask for is kept where each
chain starts and ends with jobs, or with groups of jobs, and no group is empty: then every job
of an object depends, perhaps over others, on every job of an object that comes before it
(`follows_connectGraphs`). A chain that starts with a chain does not keep it, as `_head` gives
the tails of the first delayable.
-/

namespace Fastrak

namespace JobRunner

namespace Delayables

open Run Relation

variable {os : Delayables} {start i j p n a b first : ℕ} {rest delayables : List ℕ}

/-- The connected graph has the jobs that are reached, and an edge from every tail of an object
to every head of the next ones. -/
theorem connectGraphs_spec (cs : List Construction) (hstart : start < (run step [] cs).length) :
    ((run step [] cs).connectGraphs start).Closed ∧
      (∀ w, w ∈ ((run step [] cs).connectGraphs start).vertices ↔
        (run step [] cs).Reached start w ∧ (run step [] cs).shape w = some .job) ∧
      ∀ p c, ((run step [] cs).connectGraphs start).Edge p c ↔
        ∃ i, (run step [] cs).Reached start i ∧
          (run step [] cs).Joins ((run step [] cs).graph i) p c :=
  ⟨(wired_run cs).closed_connectGraphs hstart,
    fun _ => (wired_run cs).mem_vertices_connectGraphs_iff hstart,
    fun _ _ => (wired_run cs).edge_connectGraphs_iff hstart⟩

theorem connectGraphs_spec_of_chain :
    ((run step [] [.delayable, .delayable, .chain 0 [1]]).connectGraphs 2).Closed ∧
      (∀ w, w ∈ ((run step [] [.delayable, .delayable, .chain 0 [1]]).connectGraphs 2).vertices ↔
        (run step [] [.delayable, .delayable, .chain 0 [1]]).Reached 2 w ∧
          (run step [] [.delayable, .delayable, .chain 0 [1]]).shape w = some .job) ∧
      ∀ p c, ((run step [] [.delayable, .delayable, .chain 0 [1]]).connectGraphs 2).Edge p c ↔
        ∃ i, (run step [] [.delayable, .delayable, .chain 0 [1]]).Reached 2 i ∧
          (run step [] [.delayable, .delayable, .chain 0 [1]]).Joins
            ((run step [] [.delayable, .delayable, .chain 0 [1]]).graph i) p c :=
  connectGraphs_spec _ (by decide +kernel)

/-- The job is a part of the object, or of its parts. -/
inductive Contains (os : Delayables) : ℕ → ℕ → Prop
  | job {i : ℕ} (hs : os.shape i = some .job) : Contains os i i
  | part {i v j : ℕ} {s : Shape} (hs : os.shape i = some s) (hv : v ∈ s.parts)
      (h : Contains os v j) : Contains os i j

/-- A job, or a group of flat objects. -/
inductive Flat (os : Delayables) : ℕ → Prop
  | job {i : ℕ} (hs : os.shape i = some .job) : Flat os i
  | group {i : ℕ} {delayables : List ℕ} (hs : os.shape i = some (.group delayables))
      (hne : delayables ≠ []) (hflat : ∀ v ∈ delayables, Flat os v) : Flat os i

/-- Every chain in the object starts and ends with a flat object, and no group is empty. -/
inductive Regular (os : Delayables) : ℕ → Prop
  | job {i : ℕ} (hs : os.shape i = some .job) : Regular os i
  | group {i : ℕ} {delayables : List ℕ} (hs : os.shape i = some (.group delayables))
      (hne : delayables ≠ []) (hregular : ∀ v ∈ delayables, Regular os v) : Regular os i
  | chain {i first : ℕ} {rest : List ℕ} (hs : os.shape i = some (.chain first rest))
      (hfirst : Flat os first) (hlast : Flat os (rest.getLastD first))
      (hregular : ∀ v ∈ first :: rest, Regular os v) : Regular os i

theorem contains_job_iff (hs : os.shape i = some .job) : os.Contains i j ↔ j = i := by
  constructor
  · intro h
    cases h with
    | job => rfl
    | part hs' hv =>
        obtain rfl := Option.some.inj (hs.symm.trans hs')
        simp [Shape.parts] at hv
  · rintro rfl
    exact .job hs

theorem contains_iff {s : Shape} (hs : os.shape i = some s) (hjob : s ≠ .job) :
    os.Contains i j ↔ ∃ v ∈ s.parts, os.Contains v j := by
  constructor
  · intro h
    cases h with
    | job hs' => exact absurd (Option.some.inj (hs.symm.trans hs')) hjob
    | part hs' hv h =>
        obtain rfl := Option.some.inj (hs.symm.trans hs')
        exact ⟨_, hv, h⟩
  · rintro ⟨v, hv, h⟩
    exact .part hs hv h

/-- The heads and the tails of a flat object are all its jobs. -/
theorem Flat.ends (h : os.Wired) (hflat : os.Flat i) :
    (∃ j, os.Contains i j) ∧ (∀ j, j ∈ os.head i ↔ os.Contains i j) ∧
      ∀ j, j ∈ os.tail i ↔ os.Contains i j := by
  induction hflat with
  | job hs =>
      refine ⟨⟨_, .job hs⟩, fun j => ?_, fun j => ?_⟩
      · rw [head_job hs, contains_job_iff hs, List.mem_singleton]
      · rw [tail_job hs, contains_job_iff hs, List.mem_singleton]
  | group hs hne _ ih =>
      obtain ⟨v, hv⟩ := List.exists_mem_of_ne_nil _ hne
      obtain ⟨j, hj⟩ := (ih v hv).1
      refine ⟨⟨j, .part hs hv hj⟩, fun j => ?_, fun j => ?_⟩
      · rw [h.mem_head_group_iff hs, contains_iff hs (by simp)]
        exact exists_congr fun v => and_congr_right fun hv => (ih v hv).2.1 j
      · rw [h.mem_tail_group_iff hs, contains_iff hs (by simp)]
        exact exists_congr fun v => and_congr_right fun hv => (ih v hv).2.2 j

/-- Every job of the object comes at or after a head, and at or before a tail. -/
structure Covered (os : Delayables) (start i : ℕ) : Prop where
  nonempty : ∃ j, os.Contains i j
  head : ∀ j, os.Contains i j →
    ∃ a ∈ os.head i, ReflTransGen (os.connectGraphs start).Edge a j
  tail : ∀ j, os.Contains i j →
    ∃ b ∈ os.tail i, ReflTransGen (os.connectGraphs start).Edge j b

/-- The second object has jobs, and they all come after the jobs of the first. -/
def Before (os : Delayables) (start v w : ℕ) : Prop :=
  (∃ j, os.Contains w j) ∧ ∀ a b, os.Contains v a → os.Contains w b →
    TransGen (os.connectGraphs start).Edge a b

theorem Before.trans {u v w : ℕ} (huv : os.Before start u v) (hvw : os.Before start v w) :
    os.Before start u w := by
  refine ⟨hvw.1, fun a b ha hb => ?_⟩
  obtain ⟨j, hj⟩ := huv.1
  exact (huv.2 a j ha hj).trans (hvw.2 j b hj hb)

/-- An edge of a graph that is visited. -/
theorem before_of_edge (h : os.Wired) (hstart : start < os.length) (hi : os.Reached start i)
    (hedge : (os.graph i).Edge p n) (hp : os.Covered start p) (hn : os.Covered start n) :
    os.Before start p n := by
  refine ⟨hn.nonempty, fun a b ha hb => ?_⟩
  obtain ⟨t, ht, hat⟩ := hp.tail a ha
  obtain ⟨d, hd, hdb⟩ := hn.head b hb
  have hjoin : (os.connectGraphs start).Edge t d :=
    (h.edge_connectGraphs_iff hstart).mpr ⟨i, hi, p, n, hedge, ht, hd⟩
  exact .trans_left (.tail' hat hjoin) hdb

/-- In a chain each delayable comes before the later ones. -/
theorem pairwise_before (h : os.Wired) (hstart : start < os.length) (hi : os.Reached start i)
    (hs : os.shape i = some (.chain first rest))
    (hcovered : ∀ v ∈ first :: rest, os.Covered start v) :
    (first :: rest).Pairwise (os.Before start) := by
  obtain ⟨o, hshape, hgraph, ho⟩ := h.exists_of_shape hs
  have hlinked := ho.linked first rest hshape
  rw [← hgraph] at hlinked
  have : Trans (os.Before start) (os.Before start) (os.Before start) := ⟨Before.trans⟩
  refine List.isChain_iff_pairwise.mp (hlinked.imp_of_mem_imp fun v w hv hw hedge => ?_)
  exact before_of_edge h hstart hi hedge (hcovered v hv) (hcovered w hw)

theorem exists_eq_append_getLastD (first : ℕ) (rest : List ℕ) :
    ∃ front, first :: rest = front ++ [rest.getLastD first] := by
  rcases List.eq_nil_or_concat' rest with rfl | ⟨front, last, rfl⟩
  · exact ⟨[], rfl⟩
  · exact ⟨first :: front, by simp⟩

theorem Regular.covered (h : os.Wired) (hstart : start < os.length) (hregular : os.Regular i)
    (hi : os.Reached start i) : os.Covered start i := by
  induction hregular with
  | @job i hs =>
      refine ⟨⟨i, .job hs⟩, fun j hj => ⟨j, ?_, .refl⟩, fun j hj => ⟨j, ?_, .refl⟩⟩
      · rw [head_job hs, (contains_job_iff hs).mp hj, List.mem_singleton]
      · rw [tail_job hs, (contains_job_iff hs).mp hj, List.mem_singleton]
  | group hs hne _ ih =>
      have hpart := fun v hv => ih v hv (h.reached_part hi hs hv)
      obtain ⟨v, hv⟩ := List.exists_mem_of_ne_nil _ hne
      obtain ⟨j, hj⟩ := (hpart v hv).nonempty
      refine ⟨⟨j, .part hs hv hj⟩, fun j hj => ?_, fun j hj => ?_⟩
      · obtain ⟨v, hv, hj⟩ := (contains_iff hs (by simp)).mp hj
        obtain ⟨a, ha, haj⟩ := (hpart v hv).head j hj
        exact ⟨a, (h.mem_head_group_iff hs).mpr ⟨v, hv, ha⟩, haj⟩
      · obtain ⟨v, hv, hj⟩ := (contains_iff hs (by simp)).mp hj
        obtain ⟨b, hb, hjb⟩ := (hpart v hv).tail j hj
        exact ⟨b, (h.mem_tail_group_iff hs).mpr ⟨v, hv, hb⟩, hjb⟩
  | @chain i first rest hs hfirst hlast _ ih =>
      have hpart := fun v hv => ih v hv (h.reached_part hi hs hv)
      have hbefore := pairwise_before h hstart hi hs hpart
      obtain ⟨⟨j, hj⟩, -, hends⟩ := hfirst.ends h
      refine ⟨⟨j, .part hs List.mem_cons_self hj⟩, fun k hk => ?_, fun k hk => ?_⟩
      · -- at the first delayable a job is a head itself, and later ones come after it
        rw [h.head_chain hs]
        obtain ⟨v, hv, hk⟩ := (contains_iff hs (by simp)).mp hk
        rcases List.mem_cons.mp hv with rfl | hv
        · exact ⟨k, (hends k).mpr hk, .refl⟩
        · have hafter := (List.pairwise_cons.mp hbefore).1 v hv
          exact ⟨j, (hends j).mpr hj, (hafter.2 j k hj hk).to_reflTransGen⟩
      · rw [h.tail_chain hs]
        obtain ⟨⟨l, hl⟩, hlasts, -⟩ := hlast.ends h
        obtain ⟨v, hv, hk⟩ := (contains_iff hs (by simp)).mp hk
        obtain ⟨front, heq⟩ := exists_eq_append_getLastD first rest
        rw [heq] at hbefore
        rw [Shape.parts, heq] at hv
        rcases List.mem_append.mp hv with hv | hv
        · have hafter := (List.pairwise_append.mp hbefore).2.2 v hv _ (List.mem_singleton.mpr rfl)
          exact ⟨l, (hlasts l).mpr hl, (hafter.2 k l hk hl).to_reflTransGen⟩
        · obtain rfl := List.mem_singleton.mp hv
          exact ⟨k, (hlasts k).mpr hk, .refl⟩

/-- The jobs of a delayable come after those of the delayables before it: where an edge leads
from one to the other, and in a chain. -/
theorem follows_connectGraphs (cs : List Construction)
    (hstart : start < (run step [] cs).length) (hi : (run step [] cs).Reached start i) :
    (∀ p n, ((run step [] cs).graph i).Edge p n → (run step [] cs).Regular p →
      (run step [] cs).Regular n → ∀ a b, (run step [] cs).Contains p a →
        (run step [] cs).Contains n b →
          TransGen ((run step [] cs).connectGraphs start).Edge a b) ∧
    ∀ first rest, (run step [] cs).shape i = some (.chain first rest) →
      (∀ v ∈ first :: rest, (run step [] cs).Regular v) →
      (first :: rest).Pairwise fun p n => ∀ a b, (run step [] cs).Contains p a →
        (run step [] cs).Contains n b →
          TransGen ((run step [] cs).connectGraphs start).Edge a b := by
  have h := wired_run cs
  constructor
  · intro p n hedge hp hn
    have hreached : ∀ v, v ∈ ((run step [] cs).graph i).vertices →
        (run step [] cs).Reached start v := fun v hv => hi.tail hv
    have hp' := hp.covered h hstart (hreached p hedge.parent_mem)
    have hn' := hn.covered h hstart (hreached n (h.closed_graph i p n hedge))
    exact (before_of_edge h hstart hi hedge hp' hn').2
  · intro first rest hs hregular
    have hcovered : ∀ v ∈ first :: rest, (run step [] cs).Covered start v :=
      fun v hv => (hregular v hv).covered h hstart (h.reached_part hi hs hv)
    exact (pairwise_before h hstart hi hs hcovered).imp fun hbefore => hbefore.2

theorem follows_connectGraphs_of_group_in_chain :
    TransGen ((run step [] [.delayable, .delayable, .group [0, 1], .delayable,
      .chain 2 [3]]).connectGraphs 4).Edge 0 3 := by
  have hstart : 4 < (run step [] [.delayable, .delayable, .group [0, 1], .delayable,
      .chain 2 [3]]).length := by
    decide +kernel
  have hedge : ((run step [] [.delayable, .delayable, .group [0, 1], .delayable,
      .chain 2 [3]]).graph 4).Edge 2 3 := by
    decide +kernel
  refine (follows_connectGraphs _ hstart .refl).1 2 3 hedge ?_ (.job rfl) 0 3 ?_ (.job rfl)
  · have hgroup : (run step [] [.delayable, .delayable, .group [0, 1], .delayable,
        .chain 2 [3]]).shape 2 = some (.group [0, 1]) := rfl
    refine .group hgroup (by decide) fun v hv => .job ?_
    rcases List.mem_pair.mp hv with rfl | rfl <;> rfl
  · exact .part (s := .group [0, 1]) rfl (by decide) (.job rfl)

end Delayables

end JobRunner

end Fastrak
