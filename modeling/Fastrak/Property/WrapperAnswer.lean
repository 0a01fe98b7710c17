import Fastrak.Auth.Wrapper

/-!
# Answers to exceptions

The wrapper answers an exception only with a response that is a dict already. A response object
cannot be logged, and for an exception without a response none is made: the call that would
make it names a parameter that `error_response` does not have.
-/

namespace Fastrak

namespace Auth

open Transaction

variable {printable : Char → Bool} {userName : Text} {r : HttpRequest} {e : Raised}
  {response : UserResponse}

/-- The response is an error response for the exception. -/
def IsErrorResponseFor : Raised → UserResponse → Prop
  | .httpException response', response => response = response' ∧ response ≠ .none
  | .exception _ _, response | .baseException _, response => response = .object

/-- The wrapper returns an error response for the exception and stores one log record. -/
def Answers (printable : Char → Bool) (userName : Text) (r : HttpRequest) (e : Raised) : Prop :=
  ∀ logs : List ApiLog, ∃ response log,
    (controllerMethodWrapper printable userName r (.error e)).run logs =
        .ok response (logs ++ [log]) ∧
      IsErrorResponseFor e response

/-- A call that is bound names parameters only. -/
theorem mem_parameters_of_bindKeywords {function : String} {parameters values : List String}
    {arguments : List (String × String)}
    (h : bindKeywords function parameters arguments = .ok values) :
    ∀ a ∈ arguments, a.1 ∈ parameters := by
  rw [bindKeywords] at h
  split at h
  · cases h
  · next hnone =>
      intro a ha
      simpa using List.find?_eq_none.mp hnone a ha

/-- The wrapper makes a response of an `HTTPException` only: its call of `error_response` names
`error_descrip`. -/
theorem responseFor_error_eq_ok_iff :
    responseFor (.error e) = .ok response ↔ e = .httpException response := by
  cases e with
  | httpException response' => simp [responseFor]
  | baseException e => simp [responseFor]
  | exception e error =>
      refine ⟨fun h => ?_, fun h => by cases h⟩
      rw [responseFor, errorResponse, except_bind_ok_iff] at h
      obtain ⟨values, hbind, -⟩ := h
      have hmem := mem_parameters_of_bindKeywords hbind
        ("error_descrip", (error.getD e).name.getD (error.getD e).str) (by simp)
      simp at hmem

/-- A request is logged if and only if the response is no response object and the body is a
text. -/
theorem exists_createLogRecord_iff {name : Option Text} :
    (∃ log, createLogRecord printable name r response = .ok (some log)) ↔
      response ≠ .object ∧ (Text.decodeUtf8? r.data).isSome := by
  cases response with
  | object => simp [createLogRecord, throw, throwThe, MonadExceptOf.throw, bind, Except.bind]
  | none | dict =>
      cases hd : Text.decodeUtf8? r.data with
      | none => simp [createLogRecord, hd, except_pure_eq_ok_iff]
      | some t => simp [createLogRecord, hd, except_pure_eq_ok_iff]

theorem wrapper_run_ok_iff {outcome : Except Raised UserResponse} {logs : List ApiLog}
    {log : ApiLog} :
    (controllerMethodWrapper printable userName r outcome).run logs = .ok response (logs ++ [log]) ↔
      responseFor outcome = .ok response ∧
        createLogRecord printable (some userName) r response = .ok (some log) := by
  simp only [controllerMethodWrapper, lift_bind_run_ok_iff, modify_bind_run]
  constructor
  · rintro ⟨response', hresponse, log', hlog, hrun⟩
    obtain ⟨rfl, hlogs⟩ := EStateM.Result.ok.inj hrun
    rw [List.append_cancel_left_eq, Option.toList_eq_singleton_iff] at hlogs
    exact ⟨hresponse, hlogs ▸ hlog⟩
  · rintro ⟨hresponse, hlog⟩
    exact ⟨response, hresponse, some log, hlog, rfl⟩

/-- The wrapper answers an exception if and only if it carries a dict and the body of the
request is a text. -/
theorem answers_iff (printable : Char → Bool) (userName : Text) (r : HttpRequest) (e : Raised) :
    Answers printable userName r e ↔
      (∃ text code message, e = .httpException (.dict text code message)) ∧
        (Text.decodeUtf8? r.data).isSome := by
  simp only [Answers, wrapper_run_ok_iff, responseFor_error_eq_ok_iff]
  constructor
  · intro h
    obtain ⟨response, log, ⟨rfl, hlog⟩, hanswer⟩ := h []
    obtain ⟨hobject, hbody⟩ := exists_createLogRecord_iff.mp ⟨log, hlog⟩
    cases response with
    | object => exact absurd rfl hobject
    | none => exact absurd rfl hanswer.2
    | dict text code message => exact ⟨⟨text, code, message, rfl⟩, hbody⟩
  · rintro ⟨⟨text, code, message, rfl⟩, hbody⟩ logs
    have hlogged : ∃ log, createLogRecord printable (some userName) r
        (.dict text code message) = .ok (some log) :=
      exists_createLogRecord_iff.mpr ⟨by simp, hbody⟩
    obtain ⟨log, hlog⟩ := hlogged
    exact ⟨.dict text code message, log, ⟨rfl, hlog⟩, rfl, by simp⟩

/-- A `ValidationError` that the method raises leaves the wrapper as a `TypeError`. -/
theorem validation_error_unanswered :
    ¬ Answers (fun _ => true) "api".toList
      { url := "http://localhost/fastrak/api/customer".toList, method := "GET".toList,
        remoteAddr := "10.0.0.1".toList, scheme := "http".toList,
        path := "/fastrak/api/customer".toList, data := [], environ := [],
        attributes := [("environ".toList, .environ)],
        environ_mem := ⟨"environ".toList, List.mem_cons_self⟩ }
      (.exception { typeName := "ValidationError", str := "Object Doesn't Exists" } none) := by
  intro h
  obtain ⟨response, log, hrun, -⟩ := h []
  cases responseFor_error_eq_ok_iff.mp (wrapper_run_ok_iff.mp hrun).1

end Auth

end Fastrak
