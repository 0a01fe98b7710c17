import Fastrak.Library.Base64
import Fastrak.Library.Text
import Fastrak.Library.Table
import Fastrak.Library.Transaction
import Fastrak.Library.Run

/-!
# Users and their API tokens

A user carries the token that is given out, `apiToken`, and the raw token it encodes,
`authToken`. Both are written by `getUniqueApiToken` and its callers: the raw one by
an assignment on the whole recordset, the other one by the caller.

A user is referred to by its position in the table. A call that raises is rolled back.
-/

namespace Fastrak

namespace Auth

open Transaction Run

/-- The text form of a uuid: hexadecimal digits in groups of 8, 4, 4, 4 and 12. -/
structure Uuid where
  text : Text
  length_text : text.length = 36
  dash : ∀ i ∈ [8, 13, 18, 23], text[i]? = some '-'
  digit : ∀ c ∈ text, c.isDigit ∨ c ∈ ['a', 'b', 'c', 'd', 'e', 'f'] ∨ c = '-'

theorem Uuid.ext {t t' : Uuid} (h : t.text = t'.text) : t = t' := by
  cases t
  cases t'
  simpa using h

instance : DecidableEq Uuid := fun _ _ => decidable_of_iff _ ⟨Uuid.ext, congrArg Uuid.text⟩

/-- The uuids that `uuid.uuid4` draws during one call, one after the other. -/
abbrev Draws := ℕ → Uuid

structure User where
  apiToken : Text
  authToken : Option Text

abbrev Users := List User

inductive UserError where
  | missingError
  | attributeError (message : String)

abbrev UserM := EStateM UserError Users

def Users.assign (self : List ℕ) (token : Text) (users : Users) : Users :=
  users.mapIdx fun i u => if i ∈ self then { u with authToken := some token } else u

/-- `self.auth_token = token` on the recordset `self`. -/
def assignAuthToken (self : List ℕ) (token : Text) : UserM PUnit := do
  let users ← get
  raiseIf (∃ i ∈ self, users.length ≤ i) UserError.missingError
  modify (Users.assign self token)

/-- `record.write({"api_token": token})` -/
def writeApiToken (record : ℕ) (token : Text) : UserM PUnit := do
  let users ← get
  raiseIf (users.length ≤ record) UserError.missingError
  modify fun users => users.modify record fun u => { u with apiToken := token }

/-- `base64.b64encode(auth_token.encode('UTF-8'))` -/
def b64encode (authToken : Text) : Text := Base64.encode (Text.encodeUtf8 authToken)

def searchCount (apiToken authToken : Text) (users : Users) : ℕ :=
  users.countP fun u => u.apiToken = apiToken ∧ u.authToken = some authToken

def getUniqueApiToken (self : List ℕ) (uuid4 : Draws) : UserM Text := do
  let authToken := (uuid4 0).text
  let apiToken := b64encode authToken
  assignAuthToken self authToken
  let users ← get
  -- The body of the loop draws `uuid4 1` and then encodes the bytes a second time.
  raiseIf (searchCount apiToken authToken users ≠ 0)
    (UserError.attributeError "'bytes' object has no attribute 'encode'")
  pure apiToken

/-- The loop of `reset_api_token` over the records that are left, each with the draws of
its call. -/
def resetRecords (self : List ℕ) : List (ℕ × Draws) → UserM PUnit
  | [] => pure ⟨⟩
  | (record, uuid4) :: records => do
      let token ← getUniqueApiToken self uuid4
      writeApiToken record token
      resetRecords self records

def resetApiToken (records : List (ℕ × Draws)) : UserM PUnit :=
  resetRecords (records.map (·.1)) records

/-- The default of `api_token` is computed on the empty recordset. -/
def create (uuid4 : Draws) : UserM PUnit := do
  let token ← getUniqueApiToken [] uuid4
  modify fun users => users ++ [{ apiToken := token, authToken := none }]

inductive Event where
  | create (uuid4 : Draws)
  | reset (records : List (ℕ × Draws))
  | resetAll (records : List (ℕ × Draws))

/-- The search of `reset_all_api_tokens` returns all users, in some order; a list that is
no such order does nothing. -/
def perform : Event → UserM PUnit
  | .create uuid4 => create uuid4
  | .reset records => resetApiToken records
  | .resetAll records => do
      let users ← get
      if (records.map (·.1)).Perm (List.range users.length) then resetApiToken records

def step (users : Users) (e : Event) : Users :=
  (atomic (fun users _ => users) (perform e) users).2

/-- The uuids that the event draws. -/
def Event.drawn : Event → List Uuid
  | .create uuid4 => [uuid4 0]
  | .reset records | .resetAll records => records.map fun r => r.2 0

end Auth

end Fastrak
