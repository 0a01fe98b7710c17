import Fastrak.Auth.Log

/-!
# The wrapper of the controllers

`controllerMethodWrapper` is the part of `check_auth_decorator` from the call of the controller
method on: it makes a response of what the method raises, logs the request and returns the
response. An exception that is raised on the way is not caught.
-/

namespace Fastrak

namespace Auth

open Transaction

/-- What is read of an exception: its type, its text and its attribute `name`. -/
structure ExceptionInfo where
  typeName : String
  str : String
  name : Option String := none

/-- What a controller method raises: an `HTTPException` of the module, which carries a response;
another `Exception`, whose attribute `error` may be an exception; or a `BaseException` that is
no `Exception`. -/
inductive Raised where
  | httpException (response : UserResponse)
  | exception (e : ExceptionInfo) (error : Option ExceptionInfo)
  | baseException (e : ExceptionInfo)

/-- A call with keyword arguments: the values of the parameters. -/
def bindKeywords (function : String) (parameters : List String)
    (arguments : List (String × String)) : Except String (List String) :=
  match arguments.find? fun a => a.1 ∉ parameters with
  | some a =>
      .error (function ++ "() got an unexpected keyword argument '" ++ a.1 ++ "'")
  | none => parameters.mapM fun p =>
      match arguments.lookup p with
      | some value => .ok value
      | none => .error (function ++ "() missing 1 required positional argument: '" ++ p ++ "'")

/-- The response object has the status, and the other values in its body. -/
def errorResponse (arguments : List (String × String)) : Except String UserResponse := do
  let _ ← bindKeywords "error_response" ["status", "error", "error_description"] arguments
  return .object

/-- The response for what the method does. -/
def responseFor : Except Raised UserResponse → Except String UserResponse
  | .ok response => .ok response
  | .error (.httpException response) => .ok response
  | .error (.exception e error) =>
      let e := error.getD e
      errorResponse [("status", "500"), ("error", e.typeName), ("error_descrip", e.name.getD e.str)]
  | .error (.baseException e) => .error e.str

variable (printable : Char → Bool)

/-- The call of the method does what `outcome` says; the state is the table of logs. -/
def controllerMethodWrapper (userName : Text) (r : HttpRequest)
    (outcome : Except Raised UserResponse) : EStateM String (List ApiLog) UserResponse := do
  let response ← lift (responseFor outcome)
  let log ← lift (createLogRecord printable (some userName) r response)
  modify (· ++ log.toList)
  return response

end Auth

end Fastrak
