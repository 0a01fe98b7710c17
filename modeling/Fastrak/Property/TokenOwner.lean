import Fastrak.Auth.Calls

/-!
# An API token identifies its owner

It does exactly for the users that were last in the last reset they were in, when every
other user of that call has been reset since. A user that has never been reset has no
raw token at all: the default of `api_token` assigns it to the empty recordset.
-/

namespace Fastrak

namespace Auth

open Run

/-- The header of the user is authenticated as the user, and no header of another user
is. -/
def Identifies (dbfilter : Bool) (users : Users) (i : ℕ) : Prop :=
  (∀ u ∈ users[i]?, ∀ headers : Headers, headers.Carries u.apiToken →
    authenticate dbfilter users headers = .ok i) ∧
  ∀ j ≠ i, ∀ v ∈ users[j]?, ∀ headers : Headers, headers.Carries v.apiToken →
    authenticate dbfilter users headers ≠ .ok i

theorem mem_searchAuthToken {users : Users} {token : Text} {i : ℕ} :
    i ∈ searchAuthToken token users ↔ ∃ u, users[i]? = some u ∧ u.authToken = some token := by
  rw [searchAuthToken, List.mem_filter, List.mem_range, decide_eq_true_eq,
    Option.bind_eq_some_iff]
  constructor
  · exact fun h => h.2
  · rintro ⟨u, hu, h⟩
    exact ⟨(List.getElem?_eq_some_iff.mp hu).1, u, hu, h⟩

theorem nodup_searchAuthToken (token : Text) (users : Users) :
    (searchAuthToken token users).Nodup :=
  List.nodup_range.filter _

/-- A token is authenticated as the only user that has it. -/
theorem authenticateTokenForUser_eq_ok_iff {users : Users} {token : Text} {i : ℕ} :
    authenticateTokenForUser users token = .ok i ↔
      ∀ j, j ∈ searchAuthToken token users ↔ j = i := by
  have hnd := nodup_searchAuthToken token users
  have hok : authenticateTokenForUser users token = .ok i ↔
      searchAuthToken token users = [i] := by
    rw [authenticateTokenForUser]
    split
    · next h => simp [h, throw, throwThe, MonadExceptOf.throw]
    · next j h => simp [h, pure, Except.pure]
    · next h₀ h₁ =>
        simp only [throw, throwThe, MonadExceptOf.throw, reduceCtorEq, false_iff]
        exact h₁ i
  rw [hok]
  constructor
  · intro h j
    rw [h, List.mem_singleton]
  · intro h
    by_contra hne
    rcases (hnd.ne_singleton_iff i).mp hne with hnil | ⟨j, hj, hji⟩
    · have := (h i).mpr rfl
      rw [hnil] at this
      cases this
    · exact hji ((h j).mp hj)

theorem Headers.carries_singleton (token : Text) :
    Headers.Carries [("Authorization".toList, tokenPrefix ++ token)] token := by
  simp [Headers.Carries, Headers.get?]

namespace Agrees

variable {users : Users} {c : Calls} {used : List Uuid} (h : Agrees users c used)

include h

/-- Whom the header of a user is authenticated as. -/
theorem authenticate_eq_ok_iff {i j : ℕ} {v : User} (hv : users[j]? = some v)
    {headers : Headers} (hc : headers.Carries v.apiToken) (dbfilter : Bool) :
    authenticate dbfilter users headers = .ok i ↔ ∀ k, Shares c.resets k j ↔ k = i := by
  obtain ⟨t, -, ht⟩ := h.apiToken v (List.mem_of_getElem? hv)
  rw [ht] at hc
  rw [authenticate_of_carries hc, authenticateTokenForUser_eq_ok_iff]
  refine forall_congr' fun k => iff_congr ?_ Iff.rfl
  rw [mem_searchAuthToken]
  constructor
  · rintro ⟨u, hu, hauth⟩
    exact (h.shares hu hv t ht).mp hauth
  · intro hs
    obtain ⟨call, hcall, hk, -⟩ := hs.exists_call
    have hlt : k < users.length := h.length ▸ h.bound call hcall k hk
    have hu := List.getElem?_eq_getElem hlt
    exact ⟨_, hu, (h.shares hu hv t ht).mpr hs⟩

theorem identifies_iff {i : ℕ} (hi : i < users.length) (dbfilter : Bool) :
    Identifies dbfilter users i ↔ OwnsToken c.resets i := by
  have hu := List.getElem?_eq_getElem hi
  rw [ownsToken_iff]
  constructor
  · rintro ⟨hself, -⟩
    have hk := (h.authenticate_eq_ok_iff hu (Headers.carries_singleton _) dbfilter).mp
      (hself _ hu _ (Headers.carries_singleton _))
    exact ⟨(hk i).mpr rfl, fun j hji hs => hji ((hk j).mp hs)⟩
  · rintro ⟨hself, hno⟩
    constructor
    · intro u hu headers hc
      refine (h.authenticate_eq_ok_iff hu hc dbfilter).mpr fun k => ⟨fun hs => ?_, ?_⟩
      · by_contra hki
        exact hno k hki hs
      · rintro rfl
        exact hself
    · intro j hji v hv headers hc hok
      have hs := ((h.authenticate_eq_ok_iff hv hc dbfilter).mp hok i).mpr rfl
      exact hji (hs.unique hself)

end Agrees

theorem agrees_nil : Agrees [] { users := 0, resets := [] } [] where
  length := rfl
  bound := by simp
  apiToken := by simp
  authToken := by simp
  shares hu := by simp at hu

/-- In every run from a database without users, a user is identified by its token exactly
if it was last in the last reset that it was in, and every other user of that reset has
been in a later one. -/
theorem token_identifies_owner (dbfilter : Bool) (es : List Event)
    (hdrawn : (es.flatMap Event.drawn).Nodup) (i : ℕ) (hi : i < (run step [] es).length) :
    Identifies dbfilter (run step [] es) i ↔
      OwnsToken (run Calls.step { users := 0, resets := [] } es).resets i := by
  obtain ⟨used, h⟩ := run_agrees agrees_nil es (by simp) hdrawn
  exact h.identifies_iff hi dbfilter

/-- A uuid of one digit. -/
def Uuid.ofDigit (c : Char) (h : c.isDigit) : Uuid where
  text :=
    [c, c, c, c, c, c, c, c, '-', c, c, c, c, '-', c, c, c, c, '-', c, c, c, c, '-',
      c, c, c, c, c, c, c, c, c, c, c, c]
  length_text := rfl
  dash := by simp
  digit := by simp [h]

/-- Two users, a reset of both and a reset of the first one. -/
def twoUsers : List Event :=
  [.create fun _ => .ofDigit '1' rfl, .create fun _ => .ofDigit '2' rfl,
    .reset [(0, fun _ => .ofDigit '3' rfl), (1, fun _ => .ofDigit '4' rfl)],
    .reset [(0, fun _ => .ofDigit '5' rfl)]]

theorem token_identifies_owner_of_two :
    Identifies false (run step [] twoUsers) 1 ↔
      OwnsToken (run Calls.step { users := 0, resets := [] } twoUsers).resets 1 :=
  token_identifies_owner false twoUsers (by decide +kernel) 1 (by decide +kernel)

/-- The token of a new user is refused, and after a reset of two users the token of the one
fails to authenticate anybody, and that of the other one as well. -/
theorem token_identifies_nobody :
    ((twoUsers.take 3).flatMap Event.drawn).Nodup ∧
      ¬ Identifies false (run step [] (twoUsers.take 1)) 0 ∧
      ¬ Identifies false (run step [] (twoUsers.take 3)) 0 ∧
      ¬ Identifies false (run step [] (twoUsers.take 3)) 1 := by
  refine ⟨by decide +kernel, fun h => ?_, fun h => ?_, fun h => ?_⟩
  · have hok := h.1 _ rfl _ (Headers.carries_singleton _)
    exact absurd (congrArg Except.toOption hok) (by decide +kernel)
  · have hok := h.1 _ rfl _ (Headers.carries_singleton _)
    exact absurd (congrArg Except.toOption hok) (by decide +kernel)
  · have hok := h.1 _ rfl _ (Headers.carries_singleton _)
    exact absurd (congrArg Except.toOption hok) (by decide +kernel)

end Auth

end Fastrak
