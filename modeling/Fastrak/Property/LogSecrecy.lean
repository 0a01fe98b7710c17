import Fastrak.Auth.Log

/-!
# The token in the log

The headers are stored without the token, whatever the letter case of `Authorization`. The
environment of the request is stored too, and the token is read back from its text.
-/

namespace Fastrak

namespace Auth

open Transaction Literal Text

/-- Two requests that are the same but for the token in the Authorization header, whose name
is spelled in any letter case. -/
structure DifferInToken (r r' : HttpRequest) (t t' : Text) : Prop where
  environ : ∃ before after name name',
    name.map Char.toUpper = "AUTHORIZATION".toList ∧
      name'.map Char.toUpper = "AUTHORIZATION".toList ∧
      r.environ = before ++ (environKey name, .text (tokenPrefix ++ t)) :: after ∧
      r'.environ = before ++ (environKey name', .text (tokenPrefix ++ t')) :: after
  others : r' = { r with environ := r'.environ }

section

variable {printable : Char → Bool} {r r' : HttpRequest} {t t' : Text} {userName : Option Text}

theorem environKey_authorization {name : Text}
    (h : name.map Char.toUpper = "AUTHORIZATION".toList) :
    environKey name = "HTTP_AUTHORIZATION".toList := by
  rw [environKey, h]
  rfl

/-- The server reads the same variable from each spelling. -/
theorem DifferInToken.environ_eq (h : DifferInToken r r' t t') : ∃ before after,
    r.environ = before ++ ("HTTP_AUTHORIZATION".toList, .text (tokenPrefix ++ t)) :: after ∧
      r'.environ = before ++ ("HTTP_AUTHORIZATION".toList, .text (tokenPrefix ++ t')) :: after := by
  obtain ⟨before, after, name, name', hn, hn', hr, hr'⟩ := h.environ
  rw [environKey_authorization hn] at hr
  rw [environKey_authorization hn'] at hr'
  exact ⟨before, after, hr, hr'⟩

theorem DifferInToken.eq (h : DifferInToken r r' t t') (ht : t = t') : r = r' := by
  obtain ⟨before, after, hr, hr'⟩ := h.environ_eq
  rw [h.others, hr', ← ht, ← hr]

/-! ## The headers -/

theorem headers_authorization (before after : Environ) (value : EnvironValue) :
    Environ.headers (before ++ ("HTTP_AUTHORIZATION".toList, value) :: after) =
      Environ.headers before ++ ("Authorization".toList, value.str) :: Environ.headers after := by
  have hsome : environHeader "HTTP_AUTHORIZATION".toList value =
      some ("Authorization".toList, value.str) := rfl
  simp only [Environ.headers, List.filterMap_append, List.filterMap_cons, hsome]

/-- The sanitized headers do not depend on the token. -/
theorem DifferInToken.sanitizeHeaders_eq (h : DifferInToken r r' t t') :
    sanitizeHeaders userName r.environ.headers = sanitizeHeaders userName r'.environ.headers := by
  obtain ⟨before, after, hr, hr'⟩ := h.environ_eq
  rw [hr, hr', headers_authorization, headers_authorization, sanitizeHeaders, sanitizeHeaders,
    List.flatMap_append, List.flatMap_append, List.flatMap_cons, List.flatMap_cons]
  rfl

/-- The two records agree on every field but `request_data`. -/
theorem DifferInToken.agree_but_requestData (h : DifferInToken r r' t t')
    (response : UserResponse) :
    (createLogRecord printable userName r response).map
        (Option.map fun l => { l with requestData := none }) =
      (createLogRecord printable userName r' response).map
        (Option.map fun l => { l with requestData := none }) := by
  have hs : sanitizeHeaders userName r.environ.headers =
      sanitizeHeaders userName r'.environ.headers := h.sanitizeHeaders_eq
  rw [h.others] at hs ⊢
  cases response with
  | object => rfl
  | none | dict =>
      cases hd : Text.decodeUtf8? r.data with
      | none => simp [createLogRecord, hd]
      | some parameters =>
          simp [createLogRecord, hd, hs]
          rfl

/-! ## The dict -/

theorem apart_token (ht : t ≠ t') :
    Apart (quoted printable (tokenPrefix ++ t)) (quoted printable (tokenPrefix ++ t')) :=
  apart_quoted fun h => ht (List.append_cancel_left h)

/-- The environment is printed with the token. -/
theorem DifferInToken.apart_environ (h : DifferInToken r r' t t') (ht : t ≠ t') :
    Apart (r.environ.repr printable) (r'.environ.repr printable) := by
  obtain ⟨before, after, hr, hr'⟩ := h.environ_eq
  rw [hr, hr', Environ.repr, Environ.repr, dictStr, dictStr, apart_append_left_iff]
  refine Apart.append ?_ _ _
  simp only [List.map_append, List.map_cons]
  refine Apart.intercalate _ _ _ ?_
  rw [List.append_assoc, List.append_assoc, apart_append_left_iff, apart_append_left_iff]
  exact apart_token ht

theorem apart_headers_repr {name u v : Text} (before after : Headers)
    (h : Apart (quoted printable u) (quoted printable v)) :
    Apart (Headers.repr printable (before ++ (name, u) :: after))
      (Headers.repr printable (before ++ (name, v) :: after)) := by
  unfold Headers.repr
  rw [apart_append_left_iff]
  refine Apart.append ?_ _ _
  rw [List.map_append, List.map_append, List.map_cons, List.map_cons]
  refine Apart.intercalate _ _ _ (Apart.append ?_ _ _)
  exact apart_append_left_iff.mpr h

/-- So are the headers. -/
theorem DifferInToken.apart_headers (h : DifferInToken r r' t t') (ht : t ≠ t') :
    Apart (r.environ.headers.repr printable) (r'.environ.headers.repr printable) := by
  obtain ⟨before, after, hr, hr'⟩ := h.environ_eq
  rw [hr, hr', headers_authorization, headers_authorization]
  exact apart_headers_repr _ _ (apart_token ht)

theorem DifferInToken.attribute_repr (h : DifferInToken r r' t t') (ht : t ≠ t') (a : Attribute) :
    a.repr printable r.environ = a.repr printable r'.environ ∨
      Apart (a.repr printable r.environ) (a.repr printable r'.environ) := by
  cases a with
  | environ => exact .inr (h.apart_environ ht)
  | headers => exact .inr (h.apart_headers ht)
  | object repr => exact .inl rfl

/-- The text of the `__dict__` depends on the token. -/
theorem DifferInToken.dictStr_ne (h : DifferInToken r r' t t') (ht : t ≠ t') :
    r.dictStr printable ≠ r'.dictStr printable := by
  refine Apart.ne ?_
  have hattributes : r'.attributes = r.attributes := by rw [h.others]
  rw [HttpRequest.dictStr, HttpRequest.dictStr, hattributes, Auth.dictStr, Auth.dictStr,
    apart_append_left_iff]
  refine Apart.append (apart_intercalate _ ?_ ?_) _ _
  · simp only [List.map_map, List.forall₂_map_left_iff, List.forall₂_map_right_iff,
      List.forall₂_same, Function.comp]
    intro a ha
    have hattribute : a.2.repr printable r.environ = a.2.repr printable r'.environ ∨
        Apart (a.2.repr printable r.environ) (a.2.repr printable r'.environ) :=
      h.attribute_repr ht a.2
    rcases hattribute with heq | hapart
    · exact .inl (by rw [heq])
    · exact .inr (apart_append_left_iff.mpr hapart)
  · obtain ⟨name, hname⟩ := r.environ_mem
    intro heq
    simp only [List.map_map, List.map_inj_left, Function.comp] at heq
    exact (h.apart_environ ht).ne (List.append_cancel_left (heq _ hname))

end

/-! ## The records -/

/-- **The log does depend on the token**: the two records are the same only where none is
stored, because the response has no `get` or the body is not a text. -/
theorem log_record_depends_on_token (printable : Char → Bool) (userName : Option Text)
    (response : UserResponse) {r r' : HttpRequest} {t t' : Text} (h : DifferInToken r r' t t') :
    createLogRecord printable userName r response =
        createLogRecord printable userName r' response ↔
      t = t' ∨ response = .object ∨ Text.decodeUtf8? r.data = none := by
  constructor
  · intro heq
    by_contra hne
    obtain ⟨ht, hresponse, hdata⟩ :
        t ≠ t' ∧ response ≠ .object ∧ Text.decodeUtf8? r.data ≠ none := by
      simpa using hne
    obtain ⟨parameters, hp⟩ := Option.ne_none_iff_exists'.mp hdata
    have hp' : Text.decodeUtf8? r'.data = some parameters := by
      rw [h.others]
      exact hp
    have hdict : r.dictStr printable ≠ r'.dictStr printable := h.dictStr_ne ht
    refine hdict ?_
    cases response with
    | object => exact absurd rfl hresponse
    | none | dict =>
        simp only [createLogRecord, hp, hp'] at heq
        have hl := Option.some.inj (Except.ok.inj heq)
        exact Option.some.inj (congrArg ApiLog.requestData hl)
  · rintro (ht | rfl | hdata)
    · rw [h.eq ht]
    · rfl
    · have hdata' : Text.decodeUtf8? r'.data = none := by
        rw [h.others]
        exact hdata
      cases response with
      | object => rfl
      | none | dict =>
          simp only [createLogRecord, hdata, hdata']
          rfl

/-- A request with its environment in the `__dict__`. -/
def sampleRequest (name token : Text) : HttpRequest where
  url := "http://localhost/api/v1/order".toList
  method := "POST".toList
  remoteAddr := "127.0.0.1".toList
  scheme := "http".toList
  path := "/api/v1/order".toList
  data := []
  environ := [(environKey name, .text (tokenPrefix ++ token))]
  attributes := [("environ".toList, .environ)]
  environ_mem := ⟨_, List.mem_singleton_self _⟩

theorem differInToken_sampleRequest :
    DifferInToken (sampleRequest "authorization".toList "a".toList)
      (sampleRequest "AUTHORIZATION".toList "b".toList) "a".toList "b".toList where
  environ := ⟨[], [], _, _, by decide, by decide, rfl, rfl⟩
  others := rfl

theorem log_record_depends_on_token_of_two_spellings :
    createLogRecord (fun _ => false) none (sampleRequest "authorization".toList "a".toList) .none ≠
      createLogRecord (fun _ => false) none (sampleRequest "AUTHORIZATION".toList "b".toList)
        .none := by
  intro h
  rcases (log_record_depends_on_token _ _ _ differInToken_sampleRequest).mp h with h | h | h
  · exact absurd h (by decide)
  · cases h
  · exact absurd h (by decide +kernel)

/-- The same user sends two requests that differ in the token, and the records differ. -/
theorem token_is_logged :
    DifferInToken (sampleRequest "authorization".toList "a".toList)
        (sampleRequest "AUTHORIZATION".toList "b".toList) "a".toList "b".toList ∧
      createLogRecord (fun _ => false) none (sampleRequest "authorization".toList "a".toList)
          .none ≠
        createLogRecord (fun _ => false) none (sampleRequest "AUTHORIZATION".toList "b".toList)
          .none := by
  refine ⟨differInToken_sampleRequest, fun h => ?_⟩
  have hdata := congrArg (fun l => l.toOption.join.bind (·.requestData)) h
  exact absurd hdata (by decide +kernel)

end Auth

end Fastrak
