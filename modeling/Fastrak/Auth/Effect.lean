import Fastrak.Auth.Header

/-!
# What the token operations write

Each operation is described on the users it finds, for uuids that are not in use. A
reset writes the raw token on the whole recordset in every round of its loop, so that of
the last round stays.
-/

namespace Fastrak

namespace Auth

open Transaction

variable {users : Users} {self : List ℕ} {i : ℕ}

theorem b64encode_injective : Function.Injective b64encode := by
  intro t t' h
  have hd := decode_b64encode t
  rw [h, decode_b64encode t'] at hd
  exact (Option.some.inj hd).symm

@[simp] theorem length_assign (token : Text) : (users.assign self token).length = users.length :=
  List.length_mapIdx

theorem getElem?_assign (token : Text) :
    (users.assign self token)[i]? =
      users[i]?.map fun u => if i ∈ self then { u with authToken := some token } else u :=
  List.getElem?_mapIdx

theorem assignAuthToken_run (hself : ∀ i ∈ self, i < users.length) (token : Text) :
    (assignAuthToken self token).run users = .ok ⟨⟩ (users.assign self token) := by
  have hno : ¬ ∃ i ∈ self, users.length ≤ i := by
    rintro ⟨i, hi, hle⟩
    exact absurd (hself i hi) (Nat.not_lt.mpr hle)
  rw [assignAuthToken, get_bind_run, raiseIf_bind_run, if_neg hno]
  rfl

/-- No user has the token. -/
def Unused (users : Users) (t : Uuid) : Prop := ∀ u ∈ users, u.apiToken ≠ b64encode t.text

theorem Unused.assign {t : Uuid} (h : Unused users t) (token : Text) :
    Unused (users.assign self token) t := by
  intro u hu
  obtain ⟨i, hi⟩ := List.mem_iff_getElem?.mp hu
  rw [getElem?_assign, Option.map_eq_some_iff] at hi
  obtain ⟨v, hv, rfl⟩ := hi
  have := h v (List.mem_of_getElem? hv)
  split <;> exact this

theorem Unused.searchCount {t : Uuid} (h : Unused users t) (authToken : Text) :
    searchCount (b64encode t.text) authToken users = 0 := by
  refine List.countP_eq_zero.mpr fun u hu => ?_
  simp [h u hu]

theorem getUniqueApiToken_run {uuid4 : Draws} (hself : ∀ i ∈ self, i < users.length)
    (hnew : Unused users (uuid4 0)) :
    (getUniqueApiToken self uuid4).run users =
      .ok (b64encode (uuid4 0).text) (users.assign self (uuid4 0).text) := by
  rw [getUniqueApiToken, EStateM.run_bind, assignAuthToken_run hself]
  dsimp only
  rw [get_bind_run, raiseIf_bind_run, if_neg (by simp [(hnew.assign _).searchCount])]
  rfl

theorem create_run {uuid4 : Draws} (hnew : Unused users (uuid4 0)) :
    (create uuid4).run users =
      .ok ⟨⟩ (users ++ [{ apiToken := b64encode (uuid4 0).text, authToken := none }]) := by
  have hself : ∀ i ∈ ([] : List ℕ), i < users.length := by simp
  have hnil : users.assign [] (uuid4 0).text = users := by
    refine List.ext_getElem? fun i => ?_
    simp [getElem?_assign]
  rw [create, EStateM.run_bind, getUniqueApiToken_run hself hnew, hnil]
  rfl

/-- The uuid drawn in the last round of the loop that is for `i`. -/
def drawnFor (i : ℕ) : List (ℕ × Draws) → Option Uuid
  | [] => none
  | (record, uuid4) :: records =>
      drawnFor i records <|> if record = i then some (uuid4 0) else none

/-- What a reset of the recordset makes of the user `i`. -/
def User.reset (self : List ℕ) (records : List (ℕ × Draws)) (i : ℕ) (u : User) : User where
  apiToken := ((drawnFor i records).map fun t => b64encode t.text).getD u.apiToken
  authToken :=
    if i ∈ self then (records.getLast?.map fun r => (r.2 0).text) <|> u.authToken
    else u.authToken

/-- What one round of the loop makes of the user `i`. -/
def User.round (self : List ℕ) (record : ℕ) (t : Uuid) (i : ℕ) (u : User) : User where
  apiToken := if record = i then b64encode t.text else u.apiToken
  authToken := if i ∈ self then some t.text else u.authToken

theorem User.reset_nil (u : User) : u.reset self [] i = u := by
  simp [User.reset, drawnFor]

theorem User.reset_cons (record : ℕ) (uuid4 : Draws) (records : List (ℕ × Draws)) (u : User) :
    User.reset self ((record, uuid4) :: records) i u =
      User.reset self records i (User.round self record (uuid4 0) i u) := by
  have hapi : ((drawnFor i ((record, uuid4) :: records)).map fun t => b64encode t.text).getD
      u.apiToken = ((drawnFor i records).map fun t => b64encode t.text).getD
        (if record = i then b64encode (uuid4 0).text else u.apiToken) := by
    rw [drawnFor]
    cases drawnFor i records with
    | some t => rfl
    | none => by_cases h : record = i <;> simp [h]
  have hauth : (((record, uuid4) :: records).getLast?.map fun r => (r.2 0).text) =
      ((records.getLast?.map fun r => (r.2 0).text) <|> some (uuid4 0).text) := by
    cases records with
    | nil => rfl
    | cons r records => simp [List.getLast?_cons]
  rw [User.reset, hapi, hauth]
  by_cases hs : i ∈ self
  · cases hl : (records.getLast?.map fun r => (r.2 0).text) with
    | none => simp [User.reset, User.round, hs, hl]
    | some t => simp [User.reset, User.round, hs, hl]
  · simp [User.reset, User.round, hs]

theorem round_run {record : ℕ} {uuid4 : Draws} (hself : ∀ i ∈ self, i < users.length)
    (hrecord : record ∈ self) (hnew : Unused users (uuid4 0)) :
    ∃ users' : Users,
      (getUniqueApiToken self uuid4 >>= writeApiToken record).run users = .ok ⟨⟩ users' ∧
        ∀ i, users'[i]? = users[i]?.map (User.round self record (uuid4 0) i) := by
  have hlt : record < users.length := hself record hrecord
  refine ⟨(users.assign self (uuid4 0).text).modify record fun u =>
    { u with apiToken := b64encode (uuid4 0).text }, ?_, fun i => ?_⟩
  · rw [EStateM.run_bind, getUniqueApiToken_run hself hnew]
    dsimp only
    rw [writeApiToken, get_bind_run, raiseIf_bind_run, if_neg (by simpa using hlt)]
    rfl
  · rw [List.getElem?_modify, getElem?_assign]
    cases users[i]? with
    | none => rfl
    | some u => by_cases hs : i ∈ self <;> by_cases hi : record = i <;> simp [User.round, hs, hi]

theorem Unused.round {users' : Users} {record : ℕ} {t t' : Uuid} (h : Unused users t)
    (hne : t' ≠ t) (hget : ∀ i : ℕ, users'[i]? = users[i]?.map (User.round self record t' i)) :
    Unused users' t := by
  intro u hu
  obtain ⟨i, hi⟩ := List.mem_iff_getElem?.mp hu
  rw [hget, Option.map_eq_some_iff] at hi
  obtain ⟨v, hv, rfl⟩ := hi
  rw [User.round]
  dsimp only
  split
  · exact fun heq => hne (Uuid.ext (b64encode_injective heq))
  · exact h v (List.mem_of_getElem? hv)

theorem resetRecords_run {records : List (ℕ × Draws)} (hself : ∀ i ∈ self, i < users.length)
    (hrec : ∀ r ∈ records, r.1 ∈ self) (hnew : ∀ r ∈ records, Unused users (r.2 0))
    (hnd : (records.map fun r => r.2 0).Nodup) :
    ∃ users' : Users, (resetRecords self records).run users = .ok ⟨⟩ users' ∧
      ∀ i, users'[i]? = users[i]?.map (User.reset self records i) := by
  induction records generalizing users with
  | nil =>
      refine ⟨users, rfl, fun i => ?_⟩
      cases users[i]? with
      | none => rfl
      | some u => rw [Option.map_some, User.reset_nil]
  | cons r records ih =>
      obtain ⟨record, uuid4⟩ := r
      rw [List.map_cons, List.nodup_cons] at hnd
      obtain ⟨users₁, hrun₁, hget₁⟩ :=
        round_run hself (hrec _ List.mem_cons_self) (hnew _ List.mem_cons_self)
      have hlen : users₁.length = users.length := Table.length_eq_of_getElem? hget₁
      have hnew₁ : ∀ r ∈ records, Unused users₁ (r.2 0) := by
        intro r hr
        refine (hnew r (List.mem_cons_of_mem _ hr)).round ?_ hget₁
        intro heq
        exact hnd.1 (heq ▸ List.mem_map_of_mem (f := fun r => r.2 0) hr)
      obtain ⟨users', hrun, hget⟩ := ih (hlen.symm ▸ hself)
        (fun r hr => hrec r (List.mem_cons_of_mem _ hr)) hnew₁ hnd.2
      refine ⟨users', ?_, fun i => ?_⟩
      · rw [resetRecords, ← bind_assoc, EStateM.run_bind, hrun₁]
        exact hrun
      · rw [hget, hget₁, Option.map_map]
        exact congrArg (Option.map · users[i]?) (funext fun u => (User.reset_cons ..).symm)

end Auth

end Fastrak
