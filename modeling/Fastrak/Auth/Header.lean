import Fastrak.Auth.User

/-!
# Authentication by the Authorization header

`authenticate` is the part of `check_auth_decorator` that comes before the controller
method: it finds the header, decodes it, and looks the token up among the users.
-/

namespace Fastrak

namespace Auth

open Transaction

/-- The fields of an incoming request, with the names as the client spells them. -/
abbrev Headers := List (Text × Text)

/-- `headers.get(key)`: the spelling of a name does not matter. -/
def Headers.get? (headers : Headers) (key : Text) : Option Text :=
  (headers.find? fun h => h.1.map Char.toLower = key.map Char.toLower).map (·.2)

inductive AuthError where
  | http (status : ℕ) (error description : String)
  | valueError (message : String)

def codeInvalidAuthHeader : AuthError :=
  .http 401 "Invalid header" "Token auth header is not valid"

def codeNoUserAuth : AuthError :=
  .http 401 "Authentication" "Your token could not be authenticated."

def databaseName : Text := "fastrak1".toList

def tokenPrefix : Text := "Token ".toList

/-- `get_auth_header` with `raise_exception`. -/
def getAuthHeader (headers : Headers) : Except AuthError Text :=
  let authHeader := (headers.get? "Authorization".toList).filter (· ≠ []) <|>
    headers.get? "authorization".toList
  match authHeader with
  | none => throw codeInvalidAuthHeader
  | some h => if h ≠ [] ∧ tokenPrefix <+: h then pure h else throw codeInvalidAuthHeader

/-- The database and the token of a header; `dbfilter` is the server option of that name. -/
def getDataFromAuthHeader (dbfilter : Bool) (header : Text) : Except AuthError (Text × Text) :=
  let normalized := Text.remove "\\n".toList (Text.remove tokenPrefix header)
  match (Base64.decode (Text.encodeUtf8 normalized)).bind Text.decodeUtf8? with
  | none => throw codeInvalidAuthHeader
  | some decoded =>
      match decoded.splitOn ':' with
      | [userToken] => pure (databaseName, userToken)
      | [dbName, userToken] => pure (dbName, userToken)
      | _ =>
          throw (.http 500 "Invalid header" (if dbfilter then
            "Token auth header payload must be of the form \"<user_token>\" (encoded to base64)"
            else "db_name:user_token"))

/-- `search([("auth_token", "=", token)])` -/
def searchAuthToken (token : Text) (users : Users) : List ℕ :=
  (List.range users.length).filter fun i => (users[i]?.bind (·.authToken)) = some token

def authenticateTokenForUser (users : Users) (token : Text) : Except AuthError ℕ :=
  match searchAuthToken token users with
  | [] => throw codeNoUserAuth
  | [user] => pure user
  -- `user.id` of a recordset of several
  | _ => throw (.valueError "Expected singleton")

def authenticate (dbfilter : Bool) (users : Users) (headers : Headers) : Except AuthError ℕ := do
  let authHeader ← getAuthHeader headers
  let (_, userToken) ← getDataFromAuthHeader dbfilter authHeader
  authenticateTokenForUser users userToken

/-! ## The header of a token -/

/-- The Authorization header is `Token ` followed by the token. -/
def Headers.Carries (headers : Headers) (token : Text) : Prop :=
  headers.get? "Authorization".toList = some (tokenPrefix ++ token)

theorem getAuthHeader_of_carries {headers : Headers} {token : Text}
    (h : headers.Carries token) : getAuthHeader headers = .ok (tokenPrefix ++ token) := by
  have hprefix : tokenPrefix ≠ [] := by decide
  have hne : tokenPrefix ++ token ≠ [] := List.append_ne_nil_of_left_ne_nil hprefix token
  have hp : tokenPrefix <+: tokenPrefix ++ token := List.prefix_append ..
  rw [getAuthHeader, h, Option.filter_some, if_pos (decide_eq_true hne)]
  exact if_pos ⟨hne, hp⟩

theorem remove_b64encode (authToken : Text) :
    Text.remove "\\n".toList (Text.remove tokenPrefix (tokenPrefix ++ b64encode authToken)) =
      b64encode authToken := by
  have hspace : ' ' ∉ b64encode authToken := Base64.notMem_encode (by decide) _
  have hslash : '\\' ∉ b64encode authToken := Base64.notMem_encode (by decide) _
  rw [Text.remove_append (by decide), Text.remove_of_notMem (c := ' ') (by decide) hspace,
    Text.remove_of_notMem (c := '\\') (by decide) hslash]

theorem decode_b64encode (authToken : Text) :
    (Base64.decode (Text.encodeUtf8 (b64encode authToken))).bind Text.decodeUtf8? =
      some authToken := by
  have hascii : ∀ c ∈ b64encode authToken, c.val ≤ 0x7f := fun c hc =>
    (Base64.isLetter_of_mem_encode hc).val_le
  rw [Text.encodeUtf8_of_ascii hascii]
  have hd : Base64.decode ((b64encode authToken).map (·.val.toUInt8)) =
      some (Text.encodeUtf8 authToken) := Base64.decode_map_byte_encode _
  rw [hd, Option.bind_some, Text.decodeUtf8?_encodeUtf8]

theorem Uuid.colon_notMem (t : Uuid) : ':' ∉ t.text := by
  intro h
  rcases t.digit ':' h with h | h | h
  · exact absurd h (by decide)
  · exact absurd h (by decide)
  · exact absurd h (by decide)

theorem getDataFromAuthHeader_b64encode (dbfilter : Bool) (t : Uuid) :
    getDataFromAuthHeader dbfilter (tokenPrefix ++ b64encode t.text) =
      .ok (databaseName, t.text) := by
  rw [getDataFromAuthHeader, remove_b64encode, decode_b64encode]
  simp only [List.splitOn_eq_singleton t.colon_notMem]
  rfl

/-- The header of an encoded uuid is looked up by the uuid. -/
theorem authenticate_of_carries {headers : Headers} {t : Uuid}
    (h : headers.Carries (b64encode t.text)) (dbfilter : Bool) (users : Users) :
    authenticate dbfilter users headers = authenticateTokenForUser users t.text := by
  rw [authenticate, getAuthHeader_of_carries h]
  simp only [bind, Except.bind, getDataFromAuthHeader_b64encode]

end Auth

end Fastrak
