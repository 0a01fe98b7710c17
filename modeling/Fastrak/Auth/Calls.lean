import Fastrak.Auth.Effect
import Mathlib.Data.List.Nodup

/-!
# The history of resets

What the tokens of the users are good for depends on the recordsets of the resets alone.
`Calls` is the number of users and the recordsets of the resets that went through, the
most recent one first, and `Shares resets i j` says that the raw token stored with the
user `i` is the one that the token given to `j` encodes: the two were last in one and
the same call, and `j` was at its end.

`Agrees` connects the history to the users, and every event keeps it.
-/

namespace Fastrak

namespace Auth

open Transaction Run

structure Calls where
  users : ℕ
  resets : List (List ℕ)

namespace Calls

def reset (c : Calls) (records : List ℕ) : Calls := { c with resets := records :: c.resets }

def step (c : Calls) : Event → Calls
  | .create _ => { c with users := c.users + 1 }
  | .reset records =>
      if ∀ r ∈ records, r.1 < c.users then c.reset (records.map (·.1)) else c
  | .resetAll records =>
      if (records.map (·.1)).Perm (List.range c.users) then c.reset (records.map (·.1)) else c

end Calls

def Shares : List (List ℕ) → ℕ → ℕ → Prop
  | [], _, _ => False
  | call :: resets, i, j =>
      if i ∈ call then call.getLast? = some j else j ∉ call ∧ Shares resets i j

/-- The user is the last one in the last call it was in, and every other user of that call
has been in a later one. -/
def OwnsToken (resets : List (List ℕ)) (i : ℕ) : Prop :=
  ∃ later call earlier, resets = later ++ call :: earlier ∧ (∀ c ∈ later, i ∉ c) ∧
    call.getLast? = some i ∧ ∀ j ∈ call, j ≠ i → ∃ c ∈ later, j ∈ c

/-- As `OwnsToken`, where the users `D` have been in a call later than those in `resets`. -/
def OwnsTokenBut (D : ℕ → Prop) (resets : List (List ℕ)) (i : ℕ) : Prop :=
  ∃ later call earlier, resets = later ++ call :: earlier ∧ (∀ c ∈ later, i ∉ c) ∧
    call.getLast? = some i ∧ ∀ j ∈ call, j ≠ i → D j ∨ ∃ c ∈ later, j ∈ c

section Owner

variable {D : ℕ → Prop} {call : List ℕ} {resets : List (List ℕ)} {i : ℕ}

theorem ownsTokenBut_cons_of_mem (hi : i ∈ call) :
    OwnsTokenBut D (call :: resets) i ↔
      call.getLast? = some i ∧ ∀ j ∈ call, j ≠ i → D j := by
  constructor
  · rintro ⟨later, call', earlier, heq, hlater, hlast, hrest⟩
    cases later with
    | nil =>
        obtain ⟨rfl, rfl⟩ := List.cons.inj heq
        refine ⟨hlast, fun j hj hji => ?_⟩
        rcases hrest j hj hji with h | ⟨c, hc, -⟩
        · exact h
        · simp at hc
    | cons c later =>
        obtain ⟨rfl, rfl⟩ := List.cons.inj heq
        exact absurd hi (hlater _ List.mem_cons_self)
  · rintro ⟨hlast, hrest⟩
    exact ⟨[], call, resets, rfl, by simp, hlast, fun j hj hji => .inl (hrest j hj hji)⟩

theorem ownsTokenBut_cons_of_not_mem (hi : i ∉ call) :
    OwnsTokenBut D (call :: resets) i ↔
      OwnsTokenBut (fun j => D j ∨ j ∈ call) resets i := by
  constructor
  · rintro ⟨later, call', earlier, heq, hlater, hlast, hrest⟩
    cases later with
    | nil =>
        obtain ⟨rfl, rfl⟩ := List.cons.inj heq
        exact absurd (List.mem_of_getLast? hlast) hi
    | cons c later =>
        obtain ⟨rfl, rfl⟩ := List.cons.inj heq
        refine ⟨later, call', earlier, rfl,
          fun d hd => hlater d (List.mem_cons_of_mem _ hd), hlast, fun j hj hji => ?_⟩
        rcases hrest j hj hji with h | ⟨d, hd, h⟩
        · exact .inl (.inl h)
        · rcases List.mem_cons.mp hd with rfl | hd
          · exact .inl (.inr h)
          · exact .inr ⟨d, hd, h⟩
  · rintro ⟨later, call', earlier, rfl, hlater, hlast, hrest⟩
    refine ⟨call :: later, call', earlier, rfl, ?_, hlast, fun j hj hji => ?_⟩
    · intro c hc
      rcases List.mem_cons.mp hc with rfl | hc
      · exact hi
      · exact hlater c hc
    · rcases hrest j hj hji with (h | h) | ⟨c, hc, h⟩
      · exact .inl h
      · exact .inr ⟨call, List.mem_cons_self, h⟩
      · exact .inr ⟨c, List.mem_cons_of_mem _ hc, h⟩

/-- The induction takes the calls away one by one, so that `D` grows by the users of each. -/
theorem ownsTokenBut_iff (D : ℕ → Prop) (resets : List (List ℕ)) (i : ℕ) :
    OwnsTokenBut D resets i ↔
      Shares resets i i ∧ ∀ j, j ≠ i → ¬ D j → ¬ Shares resets j i := by
  induction resets generalizing D with
  | nil => simp [OwnsTokenBut, Shares]
  | cons call resets ih =>
      by_cases hi : i ∈ call
      · rw [ownsTokenBut_cons_of_mem hi, Shares, if_pos hi]
        refine and_congr_right fun hlast => forall_congr' fun j => ?_
        have hj : Shares (call :: resets) j i ↔ j ∈ call := by
          rw [Shares]
          split
          · next hj => exact iff_of_true hlast hj
          · next hj => exact iff_of_false (fun h => h.1 hi) hj
        rw [hj]
        tauto
      · have hlast : call.getLast? ≠ some i := fun h => hi (List.mem_of_getLast? h)
        have hj : ∀ j, Shares (call :: resets) j i ↔ j ∉ call ∧ Shares resets j i := by
          intro j
          rw [Shares]
          split
          · next hj => exact iff_of_false hlast fun h => h.1 hj
          · next hj => exact ⟨fun h => ⟨hj, h.2⟩, fun h => ⟨hi, h.2⟩⟩
        rw [ownsTokenBut_cons_of_not_mem hi, ih, hj]
        refine and_congr (and_iff_right hi).symm (forall_congr' fun j => ?_)
        rw [hj]
        tauto

end Owner

theorem ownsToken_iff (resets : List (List ℕ)) (i : ℕ) :
    OwnsToken resets i ↔ Shares resets i i ∧ ∀ j, j ≠ i → ¬ Shares resets j i := by
  have h := ownsTokenBut_iff (fun _ => False) resets i
  simp only [OwnsTokenBut, not_false_eq_true, forall_const, false_or] at h
  exact h

theorem Shares.exists_call {resets : List (List ℕ)} {i j : ℕ} (h : Shares resets i j) :
    ∃ call ∈ resets, i ∈ call ∧ j ∈ call := by
  induction resets with
  | nil => exact h.elim
  | cons call resets ih =>
      rw [Shares] at h
      split at h
      · next hi => exact ⟨call, List.mem_cons_self, hi, List.mem_of_getLast? h⟩
      · obtain ⟨call', hc, hij⟩ := ih h.2
        exact ⟨call', List.mem_cons_of_mem _ hc, hij⟩

theorem Shares.unique {resets : List (List ℕ)} {i j k : ℕ} (hj : Shares resets i j)
    (hk : Shares resets i k) : j = k := by
  induction resets with
  | nil => exact hj.elim
  | cons call resets ih =>
      rw [Shares] at hj hk
      by_cases hi : i ∈ call
      · rw [if_pos hi] at hj hk
        exact Option.some.inj (hj.symm.trans hk)
      · rw [if_neg hi] at hj hk
        exact ih hj.2 hk.2

/-! ## The draws of a reset -/

section Draws

variable {records : List (ℕ × Draws)} {i : ℕ} {t : Uuid}

theorem drawnFor_eq_none_iff : drawnFor i records = none ↔ i ∉ records.map (·.1) := by
  induction records with
  | nil => simp [drawnFor]
  | cons r records ih =>
      obtain ⟨record, uuid4⟩ := r
      rw [drawnFor, List.map_cons, List.mem_cons, not_or, ← ih]
      cases drawnFor i records with
      | some t => simp
      | none => simp [eq_comm]

theorem exists_of_drawnFor (h : drawnFor i records = some t) :
    ∃ r ∈ records, r.1 = i ∧ r.2 0 = t := by
  induction records with
  | nil => simp [drawnFor] at h
  | cons r records ih =>
      obtain ⟨record, uuid4⟩ := r
      rw [drawnFor] at h
      cases hd : drawnFor i records with
      | some t' =>
          rw [hd] at h
          obtain ⟨r, hr, hri, hrt⟩ := ih (hd.trans h)
          exact ⟨r, List.mem_cons_of_mem _ hr, hri, hrt⟩
      | none =>
          rw [hd] at h
          have h : (if record = i then some (uuid4 0) else none) = some t := h
          obtain ⟨rfl, ht⟩ := Option.ite_none_right_eq_some.mp h
          exact ⟨_, List.mem_cons_self, rfl, Option.some.inj ht⟩

theorem drawnFor_last {r : ℕ × Draws} (h : records.getLast? = some r) :
    drawnFor r.1 records = some (r.2 0) := by
  induction records with
  | nil => simp at h
  | cons r' records ih =>
      rw [drawnFor]
      cases records with
      | nil =>
          obtain rfl : r' = r := by simpa using h
          simp [drawnFor]
      | cons r'' records =>
          rw [List.getLast?_cons_cons] at h
          rw [ih h]
          rfl

/-- The user at the end is the only one whose last draw is the last one of all. -/
theorem drawnFor_eq_last_iff (hnd : (records.map fun r => r.2 0).Nodup) {r : ℕ × Draws}
    (h : records.getLast? = some r) : drawnFor i records = some (r.2 0) ↔ r.1 = i := by
  constructor
  · intro hi
    obtain ⟨r', hr', hri, hrt⟩ := exists_of_drawnFor hi
    have heq : r' = r := List.inj_on_of_nodup_map hnd hr' (List.mem_of_getLast? h) hrt
    rw [← heq, hri]
  · rintro rfl
    exact drawnFor_last h

end Draws

/-! ## The history describes the users -/

/-- `used` are the uuids drawn so far. -/
structure Agrees (users : Users) (c : Calls) (used : List Uuid) : Prop where
  length : users.length = c.users
  bound : ∀ call ∈ c.resets, ∀ i ∈ call, i < c.users
  apiToken : ∀ u ∈ users, ∃ t ∈ used, u.apiToken = b64encode t.text
  authToken : ∀ u ∈ users, ∀ token, u.authToken = some token → ∃ t ∈ used, token = t.text
  shares : ∀ {i j : ℕ} {u v : User}, users[i]? = some u → users[j]? = some v →
    ∀ t : Uuid, v.apiToken = b64encode t.text →
      (u.authToken = some t.text ↔ Shares c.resets i j)

namespace Agrees

variable {users : Users} {c : Calls} {used : List Uuid}

theorem unused {t : Uuid} (h : Agrees users c used) (ht : t ∉ used) : Unused users t := by
  intro u hu heq
  obtain ⟨t', ht', hu'⟩ := h.apiToken u hu
  exact ht (Uuid.ext (b64encode_injective (heq.symm.trans hu')) ▸ ht')

theorem authToken_ne {t : Uuid} (h : Agrees users c used) (ht : t ∉ used) {u : User}
    (hu : u ∈ users) : u.authToken ≠ some t.text := by
  intro heq
  obtain ⟨t', ht', htext⟩ := h.authToken u hu _ heq
  exact ht (Uuid.ext htext ▸ ht')

theorem create {uuid4 : Draws} (h : Agrees users c used) (hnew : uuid4 0 ∉ used) :
    Agrees (users ++ [{ apiToken := b64encode (uuid4 0).text, authToken := none }])
      { c with users := c.users + 1 } (uuid4 0 :: used) where
  length := by rw [List.length_append, h.length]; rfl
  bound call hc i hi := Nat.lt_succ_of_lt (h.bound call hc i hi)
  apiToken := by
    intro u hu
    rcases List.mem_append.mp hu with hu | hu
    · obtain ⟨t, ht, heq⟩ := h.apiToken u hu
      exact ⟨t, List.mem_cons_of_mem _ ht, heq⟩
    · obtain rfl := List.mem_singleton.mp hu
      exact ⟨_, List.mem_cons_self, rfl⟩
  authToken := by
    intro u hu token htoken
    rcases List.mem_append.mp hu with hu | hu
    · obtain ⟨t, ht, heq⟩ := h.authToken u hu token htoken
      exact ⟨t, List.mem_cons_of_mem _ ht, heq⟩
    · obtain rfl := List.mem_singleton.mp hu
      cases htoken
  shares := by
    intro i j u v hu hv t ht
    have hno : ∀ call ∈ c.resets, users.length ∉ call := fun call hc hi =>
      absurd (h.bound call hc _ hi) (by rw [h.length]; exact Nat.lt_irrefl _)
    rcases Table.getElem?_concat_cases hu with hu | ⟨rfl, rfl⟩
    · rcases Table.getElem?_concat_cases hv with hv | ⟨rfl, rfl⟩
      · exact h.shares hu hv t ht
      · have heq : uuid4 0 = t := Uuid.ext (b64encode_injective ht)
        subst heq
        constructor
        · intro hauth
          exact absurd hauth (h.authToken_ne hnew (List.mem_of_getElem? hu))
        · intro hs
          obtain ⟨call, hc, -, hj⟩ := hs.exists_call
          exact absurd hj (hno call hc)
    · constructor
      · intro hauth
        cases hauth
      · intro hs
        obtain ⟨call, hc, hi, -⟩ := hs.exists_call
        exact absurd hi (hno call hc)

theorem mono (h : Agrees users c used) (new : List Uuid) : Agrees users c (new ++ used) where
  length := h.length
  bound := h.bound
  apiToken u hu := by
    obtain ⟨t, ht, heq⟩ := h.apiToken u hu
    exact ⟨t, List.mem_append_right _ ht, heq⟩
  authToken u hu token htoken := by
    obtain ⟨t, ht, heq⟩ := h.authToken u hu token htoken
    exact ⟨t, List.mem_append_right _ ht, heq⟩
  shares := h.shares

variable {records : List (ℕ × Draws)} {users' : Users}

/-- The token of a user after a reset: of the draws of the call if the user is in it, and
else the one it had. -/
theorem apiToken_reset {i : ℕ} {u : User} {t : Uuid} :
    (u.reset (records.map (·.1)) records i).apiToken = b64encode t.text ↔
      drawnFor i records = some t ∨
        i ∉ records.map (·.1) ∧ u.apiToken = b64encode t.text := by
  rw [User.reset, ← drawnFor_eq_none_iff]
  cases hd : drawnFor i records with
  | none => simp
  | some t' =>
      have hinj : b64encode t'.text = b64encode t.text ↔ t' = t :=
        ⟨fun h => Uuid.ext (b64encode_injective h), fun h => h ▸ rfl⟩
      simp [hinj]

theorem authToken_reset {i : ℕ} {u : User} {token : Text} :
    (u.reset (records.map (·.1)) records i).authToken = some token ↔
      (i ∈ records.map (·.1) ∧ ∃ r, records.getLast? = some r ∧ (r.2 0).text = token) ∨
        i ∉ records.map (·.1) ∧ u.authToken = some token := by
  rw [User.reset]
  by_cases hi : i ∈ records.map (·.1)
  · have hne : records ≠ [] := by
      rintro rfl
      simp at hi
    obtain ⟨r, hr⟩ : ∃ r, records.getLast? = some r :=
      ⟨_, List.getLast?_eq_getLast_of_ne_nil hne⟩
    simp [hi, hr]
  · simp [hi]

/-- A user in the call has the raw token of the call's last round, which nobody outside
the call has the encoding of. -/
theorem shares_reset_of_mem (h : Agrees users c used) (hnew : ∀ r ∈ records, r.2 0 ∉ used)
    (hnd : (records.map fun r => r.2 0).Nodup) {i j : ℕ} {u v : User} {t : Uuid}
    (hv : users[j]? = some v) (hi : i ∈ records.map (·.1))
    (ht : (v.reset (records.map (·.1)) records j).apiToken = b64encode t.text) :
    (u.reset (records.map (·.1)) records i).authToken = some t.text ↔
      (records.map (·.1)).getLast? = some j := by
  have hne : records ≠ [] := by
    rintro rfl
    simp at hi
  obtain ⟨r, hr⟩ : ∃ r, records.getLast? = some r :=
    ⟨_, List.getLast?_eq_getLast_of_ne_nil hne⟩
  have hmem := List.mem_of_getLast? hr
  have hlast : (records.map (·.1)).getLast? = some j ↔ r.1 = j := by
    rw [List.getLast?_map, hr]
    simp
  have hauth : (u.reset (records.map (·.1)) records i).authToken = some t.text ↔
      r.2 0 = t := by
    rw [authToken_reset]
    simp only [hi, hr, true_and, not_true_eq_false, false_and, or_false, Option.some.injEq,
      exists_eq_left']
    exact ⟨Uuid.ext, congrArg Uuid.text⟩
  rw [hlast, hauth]
  rcases apiToken_reset.mp ht with hd | ⟨hj, hv'⟩
  · rw [← drawnFor_eq_last_iff hnd hr, hd, Option.some.injEq, eq_comm]
  · refine iff_of_false ?_ ?_
    · rintro rfl
      exact h.unused (hnew r hmem) v (List.mem_of_getElem? hv) hv'
    · rintro rfl
      exact hj (List.mem_map_of_mem (f := fun r => r.1) hmem)

/-- A user that is not in the call keeps its raw token, and the encodings the call draws
are of none of the tokens used before. -/
theorem shares_reset_of_not_mem (h : Agrees users c used)
    (hnew : ∀ r ∈ records, r.2 0 ∉ used) {i j : ℕ} {u v : User} {t : Uuid}
    (hu : users[i]? = some u) (hv : users[j]? = some v) (hi : i ∉ records.map (·.1))
    (ht : (v.reset (records.map (·.1)) records j).apiToken = b64encode t.text) :
    (u.reset (records.map (·.1)) records i).authToken = some t.text ↔
      j ∉ records.map (·.1) ∧ Shares c.resets i j := by
  have hauth : (u.reset (records.map (·.1)) records i).authToken = some t.text ↔
      u.authToken = some t.text := by
    rw [authToken_reset]
    simp only [hi, false_and, false_or, not_false_eq_true, true_and]
  rw [hauth]
  rcases apiToken_reset.mp ht with hd | ⟨hj, hv'⟩
  · refine iff_of_false ?_ fun hs => ?_
    · obtain ⟨r, hr, -, rfl⟩ := exists_of_drawnFor hd
      exact h.authToken_ne (hnew r hr) (List.mem_of_getElem? hu)
    · rw [drawnFor_eq_none_iff.mpr hs.1] at hd
      cases hd
  · rw [h.shares hu hv t hv', and_iff_right hj]

theorem reset (h : Agrees users c used) (hin : ∀ r ∈ records, r.1 < c.users)
    (hnew : ∀ r ∈ records, r.2 0 ∉ used) (hnd : (records.map fun r => r.2 0).Nodup)
    (hget : ∀ i : ℕ, users'[i]? = users[i]?.map (User.reset (records.map (·.1)) records i)) :
    Agrees users' (c.reset (records.map (·.1))) (records.map (fun r => r.2 0) ++ used) where
  length := (Table.length_eq_of_getElem? hget).trans h.length
  bound := by
    intro call hc i hi
    rcases List.mem_cons.mp hc with rfl | hc
    · obtain ⟨r, hr, rfl⟩ := List.mem_map.mp hi
      exact hin r hr
    · exact h.bound call hc i hi
  apiToken := by
    intro u hu
    obtain ⟨i, hi⟩ := List.mem_iff_getElem?.mp hu
    rw [hget, Option.map_eq_some_iff] at hi
    obtain ⟨v, hv, rfl⟩ := hi
    cases hd : drawnFor i records with
    | some t =>
        obtain ⟨r, hr, -, rfl⟩ := exists_of_drawnFor hd
        exact ⟨_, List.mem_append_left _ (List.mem_map_of_mem (f := fun r => r.2 0) hr),
          apiToken_reset.mpr (.inl hd)⟩
    | none =>
        obtain ⟨t, ht, heq⟩ := h.apiToken v (List.mem_of_getElem? hv)
        exact ⟨t, List.mem_append_right _ ht,
          apiToken_reset.mpr (.inr ⟨drawnFor_eq_none_iff.mp hd, heq⟩)⟩
  authToken := by
    intro u hu token htoken
    obtain ⟨i, hi⟩ := List.mem_iff_getElem?.mp hu
    rw [hget, Option.map_eq_some_iff] at hi
    obtain ⟨v, hv, rfl⟩ := hi
    rcases authToken_reset.mp htoken with ⟨-, r, hr, rfl⟩ | ⟨-, heq⟩
    · exact ⟨_, List.mem_append_left _
        (List.mem_map_of_mem (f := fun r => r.2 0) (List.mem_of_getLast? hr)), rfl⟩
    · obtain ⟨t, ht, rfl⟩ := h.authToken v (List.mem_of_getElem? hv) token heq
      exact ⟨t, List.mem_append_right _ ht, rfl⟩
  shares := by
    intro i j u v hu hv t ht
    rw [hget, Option.map_eq_some_iff] at hu hv
    obtain ⟨u, hu, rfl⟩ := hu
    obtain ⟨v, hv, rfl⟩ := hv
    rw [Calls.reset, Shares]
    split
    · next hi => exact h.shares_reset_of_mem hnew hnd hv hi ht
    · next hi => exact h.shares_reset_of_not_mem hnew hu hv hi ht

end Agrees

/-- A call on a recordset with a user that does not exist raises in its first round. -/
theorem resetApiToken_raises {users : Users} {records : List (ℕ × Draws)}
    (h : ¬ ∀ r ∈ records, r.1 < users.length) :
    (resetApiToken records).run users = .error .missingError users := by
  have hmissing : ∃ i ∈ records.map (·.1), users.length ≤ i := by
    by_contra hno
    refine h fun r hr => ?_
    by_contra hlt
    exact hno ⟨r.1, List.mem_map_of_mem (f := fun r => r.1) hr, Nat.not_lt.mp hlt⟩
  cases records with
  | nil => simp at h
  | cons r records =>
      rw [resetApiToken, resetRecords, EStateM.run_bind, getUniqueApiToken, EStateM.run_bind,
        assignAuthToken, get_bind_run, raiseIf_bind_run, if_pos hmissing]

theorem Agrees.resetApiToken {users : Users} {c : Calls} {used : List Uuid}
    {records : List (ℕ × Draws)} (h : Agrees users c used)
    (hnew : ∀ t ∈ records.map (fun r => r.2 0), t ∉ used)
    (hnd : (records.map fun r => r.2 0).Nodup) :
    Agrees (atomic (fun users _ => users) (resetApiToken records) users).2
      (if ∀ r ∈ records, r.1 < c.users then c.reset (records.map (·.1)) else c)
      (records.map (fun r => r.2 0) ++ used) := by
  rw [← h.length]
  by_cases hin : ∀ r ∈ records, r.1 < users.length
  · have hself : ∀ i ∈ records.map (·.1), i < users.length := by
      intro i hi
      obtain ⟨r, hr, rfl⟩ := List.mem_map.mp hi
      exact hin r hr
    have hnew' : ∀ r ∈ records, r.2 0 ∉ used := fun r hr =>
      hnew _ (List.mem_map_of_mem (f := fun r => r.2 0) hr)
    obtain ⟨users', hrun, hget⟩ := resetRecords_run hself
      (fun r hr => List.mem_map_of_mem (f := fun r => r.1) hr)
      (fun r hr => h.unused (hnew' r hr)) hnd
    rw [if_pos hin, atomic, Auth.resetApiToken, hrun]
    exact h.reset (h.length ▸ hin) hnew' hnd hget
  · rw [if_neg hin, atomic, resetApiToken_raises hin]
    exact h.mono _

theorem step_agrees {users : Users} {c : Calls} {used : List Uuid} (h : Agrees users c used)
    (e : Event) (hnew : ∀ t ∈ e.drawn, t ∉ used) (hnd : e.drawn.Nodup) :
    Agrees (step users e) (c.step e) (e.drawn ++ used) := by
  cases e with
  | create uuid4 =>
      have hnew := hnew _ List.mem_cons_self
      rw [step, atomic, perform, create_run (h.unused hnew)]
      exact h.create hnew
  | reset records => exact h.resetApiToken hnew hnd
  | resetAll records =>
      have hrun : (perform (.resetAll records)).run users =
          (if (records.map (·.1)).Perm (List.range users.length) then resetApiToken records
            else pure ⟨⟩).run users := rfl
      rw [step, atomic, hrun, Calls.step, ← h.length]
      by_cases hperm : (records.map (·.1)).Perm (List.range users.length)
      · have hin : ∀ r ∈ records, r.1 < c.users := fun r hr => h.length ▸
          List.mem_range.mp (hperm.mem_iff.mp (List.mem_map_of_mem (f := fun r => r.1) hr))
        have hr := h.resetApiToken hnew hnd
        rw [if_pos hin] at hr
        rw [if_pos hperm, if_pos hperm]
        exact hr
      · rw [if_neg hperm, if_neg hperm]
        exact h.mono _

theorem run_agrees {users : Users} {c : Calls} {used : List Uuid} (h : Agrees users c used)
    (es : List Event) (hnew : ∀ t ∈ es.flatMap Event.drawn, t ∉ used)
    (hnd : (es.flatMap Event.drawn).Nodup) :
    ∃ used', Agrees (run step users es) (run Calls.step c es) used' := by
  induction es generalizing users c used with
  | nil => exact ⟨used, h⟩
  | cons e es ih =>
      rw [List.flatMap_cons] at hnew hnd
      obtain ⟨hnd₁, hnd₂, hdisj⟩ := List.nodup_append.mp hnd
      refine ih (step_agrees h e (fun t ht => hnew t (List.mem_append_left _ ht)) hnd₁) ?_ hnd₂
      intro t ht hused
      rcases List.mem_append.mp hused with hu | hu
      · exact hdisj t hu t ht rfl
      · exact hnew t (List.mem_append_right _ ht) hu

end Auth

end Fastrak
