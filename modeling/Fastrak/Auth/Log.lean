import Fastrak.Auth.Header
import Fastrak.Library.Literal

/-!
# The log of the API

`createLogRecord` stores one record for each request. The headers are written without the
Authorization header, and `request_data` is the text of the whole `__dict__` of the request,
which holds the WSGI environment and the headers that werkzeug has read from it.

`printable` says which of the characters after ASCII Python prints as they are.
-/

namespace Fastrak

namespace Auth

open Transaction Literal

/-- A variable of the WSGI environment. An object is given by its `repr`. -/
inductive EnvironValue where
  | text (t : Text)
  | object (repr : Text)

abbrev Environ := List (Text × EnvironValue)

/-- What a name of the `__dict__` of a request is bound to. -/
inductive Attribute where
  | environ
  | headers
  | object (repr : Text)

structure HttpRequest where
  url : Text
  method : Text
  remoteAddr : Text
  scheme : Text
  path : Text
  data : List UInt8
  environ : Environ
  attributes : List (Text × Attribute)
  environ_mem : ∃ name, (name, Attribute.environ) ∈ attributes

/-- What a controller returns: a dict, with its text, its code and its message, or a response
object. -/
inductive UserResponse where
  | none
  | dict (text : Text) (code message : Option Text)
  | object

structure ApiLog where
  request : Text
  requestData : Option Text
  responseData : Option Text
  requestResource : Text
  requestRemoteAddress : Text
  requestScheme : Text
  requestPath : Text
  requestMethod : Text
  requestHeaders : Text
  requestParameters : Text
  responseCode : Option Text
  responseMsg : Option Text
  deriving DecidableEq

/-! ## Headers -/

/-- The variable of a header. -/
def environKey (name : Text) : Text :=
  let key := (name.map Char.toUpper).map fun c => if c = '-' then '_' else c
  if key = "CONTENT_TYPE".toList ∨ key = "CONTENT_LENGTH".toList then key
  else "HTTP_".toList ++ key

/-- `title()`, where `cased` says that a letter comes before. -/
def title : Bool → Text → Text
  | _, [] => []
  | cased, c :: t => (if cased then c.toLower else c.toUpper) :: title c.isAlpha t

/-- The name of a variable, as a header. -/
def headerName (key : Text) : Text := title false (key.map fun c => if c = '_' then '-' else c)

/-- `str` of a value -/
def EnvironValue.str : EnvironValue → Text
  | .text t => t
  | .object repr => repr

/-- The header that a variable is, if it is one. -/
def environHeader (key : Text) (value : EnvironValue) : Option (Text × Text) :=
  if "HTTP_".toList <+: key ∧ key ≠ "HTTP_CONTENT_TYPE".toList ∧
      key ≠ "HTTP_CONTENT_LENGTH".toList then
    some (headerName (key.drop 5), value.str)
  else if (key = "CONTENT_TYPE".toList ∨ key = "CONTENT_LENGTH".toList) ∧ value.str ≠ [] then
    some (headerName key, value.str)
  else none

/-- `request.headers`: the `EnvironHeaders` of the environment. -/
def Environ.headers (environ : Environ) : Headers :=
  environ.filterMap fun (key, value) => environHeader key value

/-- One round of the loop of `_sanitize_headers`. -/
def sanitizeHeader (userName : Option Text) (header : Text × Text) : Text :=
  if header.1 = "Authorization".toList then
    match userName.filter (· ≠ []) with
    | some name => "Auth User: ".toList ++ name ++ "\n".toList
    | none => []
  else header.1 ++ ": ".toList ++ header.2 ++ "\n".toList

/-- `_sanitize_headers`. Nothing in the loop raises, as every header is a pair of texts. -/
def sanitizeHeaders (userName : Option Text) (headers : Headers) : Text :=
  headers.flatMap (sanitizeHeader userName)

/-! ## Texts of objects -/

section Str

variable (printable : Char → Bool)

/-- `str` of a dict whose values are given by their `repr`. -/
def dictStr (items : List (Text × Text)) : Text :=
  "\x7b".toList ++ (", ".toList.intercalate
    (items.map fun (key, value) => quoted printable key ++ ": ".toList ++ value) ++ "\x7d".toList)

def EnvironValue.repr : EnvironValue → Text
  | .text t => quoted printable t
  | .object repr => repr

def Environ.repr (environ : Environ) : Text :=
  dictStr printable (environ.map fun (key, value) => (key, value.repr printable))

/-- `repr` of the `EnvironHeaders` -/
def Headers.repr (headers : Headers) : Text :=
  "EnvironHeaders([".toList ++ (", ".toList.intercalate
    (headers.map fun (key, value) => "(".toList ++ quoted printable key ++ ", ".toList ++
      quoted printable value ++ ")".toList) ++ "])".toList)

def Attribute.repr (environ : Environ) : Attribute → Text
  | .environ => environ.repr printable
  | .headers => environ.headers.repr printable
  | .object repr => repr

/-- `str(request.__dict__)` -/
def HttpRequest.dictStr (r : HttpRequest) : Text :=
  Auth.dictStr printable
    (r.attributes.map fun (name, value) => (name, value.repr printable r.environ))

/-! ## Records -/

/-- `_create_log_record`: the record that is stored. The body is stored as a text, and when
it is none the create raises, which is logged elsewhere. -/
def createLogRecord (userName : Option Text) (r : HttpRequest) (response : UserResponse) :
    Except String (Option ApiLog) := do
  let requestResource := (r.path.splitOn '/')[4]?.getD "fastrak".toList
  let headers := sanitizeHeaders userName r.environ.headers
  let (responseData, responseCode, responseMsg) ← match response with
    | .none => pure (none, none, none)
    | .dict text code message => pure (some text, code, message)
    | .object => throw "'Response' object has no attribute 'get'"
  return (Text.decodeUtf8? r.data).map fun parameters =>
    { request := r.url ++ " ".toList ++ r.method
      requestData := some (r.dictStr printable)
      responseData
      requestResource
      requestRemoteAddress := r.remoteAddr
      requestScheme := r.scheme
      requestPath := r.path
      requestMethod := r.method
      requestHeaders := headers
      requestParameters := parameters
      responseCode
      responseMsg }

end Str

end Auth

end Fastrak
