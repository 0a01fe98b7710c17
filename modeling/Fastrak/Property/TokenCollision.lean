import Fastrak.Auth.TokenLoop
import Fastrak.Property.TokenOwner

/-!
# Token generation and collisions

A pair that no user holds is returned and stays free. The first pair that is held ends the
call with an exception, however many draws would have been left, so that no collision is
survived.
-/

namespace Fastrak

namespace Auth

open Transaction

variable {users : Users} {self : List ℕ} {uuid4 : Draws}

/-- A user holds the pair of the uuid once its raw token is assigned to the records `self`. -/
def InUse (self : List ℕ) (users : Users) (t : Uuid) : Prop :=
  ∃ (i : ℕ) (u : User), users[i]? = some u ∧ u.apiToken = b64encode t.text ∧
    (i ∈ self ∨ u.authToken = some t.text)

/-- The search counts the users that hold the pair. -/
theorem searchCount_ne_zero_iff {t : Uuid} :
    searchCount (b64encode t.text) t.text (users.assign self t.text) ≠ 0 ↔
      InUse self users t := by
  rw [searchCount, ← Nat.pos_iff_ne_zero, List.countP_pos_iff]
  constructor
  · rintro ⟨u, hu, hpair⟩
    obtain ⟨hapi, hauth⟩ := of_decide_eq_true hpair
    obtain ⟨i, hi⟩ := List.mem_iff_getElem?.mp hu
    rw [getElem?_assign, Option.map_eq_some_iff] at hi
    obtain ⟨v, hv, rfl⟩ := hi
    by_cases hself : i ∈ self
    · rw [if_pos hself] at hapi
      exact ⟨i, v, hv, hapi, .inl hself⟩
    · rw [if_neg hself] at hapi hauth
      exact ⟨i, v, hv, hapi, .inr hauth⟩
  · rintro ⟨i, u, hu, hapi, hauth⟩
    have hget : (users.assign self t.text)[i]? =
        some (if i ∈ self then { u with authToken := some t.text } else u) := by
      rw [getElem?_assign, hu, Option.map_some]
    refine ⟨_, List.mem_of_getElem? hget, decide_eq_true ?_⟩
    by_cases hself : i ∈ self
    · rw [if_pos hself]
      exact ⟨hapi, rfl⟩
    · rw [if_neg hself]
      exact ⟨hapi, hauth.resolve_left hself⟩

/-- The call ends with the base64 form of the raw token that it has assigned, and none of the
other users holds the pair. -/
def EndsWithFreePair (self : List ℕ) (uuid4 : Draws) (users : Users) : Prop :=
  ∃ fuel apiToken authToken, (getUniqueApiTokenWithin fuel self uuid4).run users =
      .ok (some apiToken) (users.assign self authToken) ∧
    apiToken = .bytes (b64encode authToken) ∧
    ∀ (i : ℕ) (u : User), (users.assign self authToken)[i]? = some u → i ∉ self →
      ¬ (u.apiToken = b64encode authToken ∧ u.authToken = some authToken)

section

variable (hself : ∀ i ∈ self, i < users.length)

include hself

/-- A first pair that is free is returned after one search. -/
theorem getUniqueApiTokenWithin_run_of_free (h : ¬ InUse self users (uuid4 0)) (fuel : ℕ) :
    (getUniqueApiTokenWithin (fuel + 1) self uuid4).run users =
      .ok (some (.bytes (b64encode (uuid4 0).text))) (users.assign self (uuid4 0).text) := by
  have hfree := not_not.mp (searchCount_ne_zero_iff.not.mpr h)
  rw [getUniqueApiTokenWithin, EStateM.run_bind, assignAuthToken_run hself]
  exact tokenLoop_run_of_not_held hfree fuel 1

/-- A first pair that is held makes the call raise, whatever is drawn after it. -/
theorem getUniqueApiTokenWithin_run_of_inUse (h : InUse self users (uuid4 0)) (fuel : ℕ) :
    (getUniqueApiTokenWithin (fuel + 1) self uuid4).run users =
      .error (.attributeError "'bytes' object has no attribute 'encode'")
        (users.assign self (uuid4 0).text) := by
  rw [getUniqueApiTokenWithin, EStateM.run_bind, assignAuthToken_run hself]
  exact tokenLoop_run_of_held (searchCount_ne_zero_iff.mpr h) fuel 1

theorem not_endsWithFreePair (h : InUse self users (uuid4 0)) :
    ¬ EndsWithFreePair self uuid4 users := by
  rintro ⟨fuel, apiToken, authToken, hrun, -, -⟩
  cases fuel with
  | zero =>
      rw [getUniqueApiTokenWithin, EStateM.run_bind, assignAuthToken_run hself] at hrun
      cases hrun
  | succ fuel =>
      rw [getUniqueApiTokenWithin_run_of_inUse hself h] at hrun
      cases hrun

theorem endsWithFreePair (h : ¬ InUse self users (uuid4 0)) :
    EndsWithFreePair self uuid4 users := by
  refine ⟨1, _, _, getUniqueApiTokenWithin_run_of_free hself h 0, rfl, fun i u hu hi hpair => ?_⟩
  rw [getElem?_assign, Option.map_eq_some_iff] at hu
  obtain ⟨v, hv, rfl⟩ := hu
  rw [if_neg hi] at hpair
  exact h ⟨i, v, hv, hpair.1, .inr hpair.2⟩

/-- With `k` values in use before the first free one, the call ends with a free pair if and
only if there is none of them. -/
theorem token_survives_collisions_iff {k : ℕ} (hused : ∀ j < k, InUse self users (uuid4 j))
    (hfree : ¬ InUse self users (uuid4 k)) : EndsWithFreePair self uuid4 users ↔ k = 0 := by
  constructor
  · intro h
    by_contra hk
    exact not_endsWithFreePair hself (hused 0 (Nat.pos_of_ne_zero hk)) h
  · rintro rfl
    exact endsWithFreePair hself hfree

end

/-- A user that holds the pair of `t`, and one that has not been reset. -/
def holderAndOther (t t' : Uuid) : Users :=
  [{ apiToken := b64encode t.text, authToken := some t.text },
   { apiToken := b64encode t'.text, authToken := none }]

theorem lt_length_holderAndOther (t t' : Uuid) : ∀ i ∈ [1], i < (holderAndOther t t').length := by
  intro i hi
  rw [List.mem_singleton.mp hi]
  exact Nat.lt_succ_self 1

/-- The second user is reset with a draw that nobody holds. -/
theorem endsWithFreePair_of_holderAndOther :
    EndsWithFreePair [1] (fun _ => .ofDigit '3' rfl)
      (holderAndOther (.ofDigit '1' rfl) (.ofDigit '2' rfl)) := by
  have hfree : ¬ InUse [1] (holderAndOther (.ofDigit '1' rfl) (.ofDigit '2' rfl))
      (.ofDigit '3' rfl) :=
    searchCount_ne_zero_iff.not.mp (by decide +kernel)
  have hused : ∀ j < 0, InUse [1] (holderAndOther (.ofDigit '1' rfl) (.ofDigit '2' rfl))
      (.ofDigit '3' rfl) := fun j hj => absurd hj (Nat.not_lt_zero j)
  exact (token_survives_collisions_iff (lt_length_holderAndOther _ _) hused hfree).mpr rfl

/-- One value in use ends the call, although the draws after it are free. -/
theorem one_collision_raises :
    InUse [1] (holderAndOther (.ofDigit '1' rfl) (.ofDigit '2' rfl)) (.ofDigit '1' rfl) ∧
      ¬ InUse [1] (holderAndOther (.ofDigit '1' rfl) (.ofDigit '2' rfl)) (.ofDigit '3' rfl) ∧
      (getUniqueApiTokenWithin 2 [1]
          fun n => if n = 0 then .ofDigit '1' rfl else .ofDigit '3' rfl).run
          (holderAndOther (.ofDigit '1' rfl) (.ofDigit '2' rfl)) =
        .error (.attributeError "'bytes' object has no attribute 'encode'")
          ((holderAndOther (.ofDigit '1' rfl) (.ofDigit '2' rfl)).assign [1]
            (Uuid.ofDigit '1' rfl).text) ∧
      ¬ EndsWithFreePair [1] (fun n => if n = 0 then .ofDigit '1' rfl else .ofDigit '3' rfl)
        (holderAndOther (.ofDigit '1' rfl) (.ofDigit '2' rfl)) := by
  have hself := lt_length_holderAndOther (.ofDigit '1' rfl) (.ofDigit '2' rfl)
  have hheld : InUse [1] (holderAndOther (.ofDigit '1' rfl) (.ofDigit '2' rfl))
      (.ofDigit '1' rfl) := ⟨0, _, rfl, rfl, .inr rfl⟩
  refine ⟨hheld, searchCount_ne_zero_iff.not.mp (by decide +kernel), ?_, ?_⟩
  · exact getUniqueApiTokenWithin_run_of_inUse hself hheld 1
  · exact not_endsWithFreePair hself hheld

end Auth

end Fastrak
