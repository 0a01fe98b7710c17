import Fastrak.Auth.Effect

/-!
# The loop that draws another token

`_get_unique_api_token` searches for a user that holds the pair it has drawn, and draws again
while there is one. The raw token of a pass is drawn anew, but it is the old `api_token` that
is encoded: bytes, which cannot be encoded. So no pass of the loop is completed.

The loop is run with fuel, one unit for each search.
-/

namespace Fastrak

namespace Auth

open Transaction

variable {users : Users} {self : List ℕ} {uuid4 : Draws}

/-- A value of `api_token`: the text of a record, or the bytes that `b64encode` returns. -/
inductive TokenValue where
  | str (t : Text)
  | bytes (t : Text)
  deriving DecidableEq

namespace TokenValue

/-- The text that a search compares with the stored ones. -/
def text : TokenValue → Text
  | .str t => t
  | .bytes t => t

/-- `api_token.encode('UTF-8')` -/
def encode : TokenValue → Except UserError (List UInt8)
  | .str t => .ok (Text.encodeUtf8 t)
  | .bytes _ => .error (.attributeError "'bytes' object has no attribute 'encode'")

end TokenValue

/-- The loop with the draws from `uuid4 n` on; `none` when the fuel is used up. -/
def tokenLoop (self : List ℕ) (uuid4 : Draws) :
    ℕ → ℕ → TokenValue → Text → UserM (Option TokenValue)
  | 0, _, _, _ => pure none
  | fuel + 1, n, apiToken, authToken => do
      let users ← get
      if searchCount apiToken.text authToken users ≠ 0 then do
        let authToken := (uuid4 n).text
        let encoded ← lift apiToken.encode
        let apiToken := TokenValue.bytes (Base64.encode encoded)
        assignAuthToken self authToken
        tokenLoop self uuid4 fuel (n + 1) apiToken authToken
      else pure (some apiToken)

/-- `_get_unique_api_token()` with its loop. -/
def getUniqueApiTokenWithin (fuel : ℕ) (self : List ℕ) (uuid4 : Draws) :
    UserM (Option TokenValue) := do
  let authToken := (uuid4 0).text
  let apiToken := TokenValue.bytes (b64encode authToken)
  assignAuthToken self authToken
  tokenLoop self uuid4 fuel 1 apiToken authToken

/-! ## Passes -/

/-- The loop ends at a pair that no user holds. -/
theorem tokenLoop_run_of_not_held {token authToken : Text}
    (h : searchCount token authToken users = 0) (fuel n : ℕ) :
    (tokenLoop self uuid4 (fuel + 1) n (.bytes token) authToken).run users =
      .ok (some (.bytes token)) users := by
  have hfree : searchCount (TokenValue.bytes token).text authToken users = 0 := h
  rw [tokenLoop, get_bind_run, if_neg (not_not.mpr hfree)]
  rfl

/-- At a pair that a user holds the pass raises, whatever it draws. -/
theorem tokenLoop_run_of_held {token authToken : Text}
    (h : searchCount token authToken users ≠ 0) (fuel n : ℕ) :
    (tokenLoop self uuid4 (fuel + 1) n (.bytes token) authToken).run users =
      .error (.attributeError "'bytes' object has no attribute 'encode'") users := by
  have hheld : searchCount (TokenValue.bytes token).text authToken users ≠ 0 := h
  rw [tokenLoop, get_bind_run, if_pos hheld]
  rfl

/-- The first search decides: `getUniqueApiToken`, which makes no other one, is the function
with its loop and any fuel. -/
theorem getUniqueApiTokenWithin_run (fuel : ℕ) :
    (getUniqueApiTokenWithin (fuel + 1) self uuid4).run users =
      (getUniqueApiToken self uuid4 >>= fun token => pure (some (.bytes token))).run users := by
  rw [getUniqueApiTokenWithin, getUniqueApiToken, EStateM.run_bind, EStateM.run_bind,
    EStateM.run_bind]
  cases (assignAuthToken self (uuid4 0).text).run users with
  | error e users' => rfl
  | ok _ users' =>
      dsimp only
      rw [get_bind_run, raiseIf_bind_run]
      by_cases h : searchCount (b64encode (uuid4 0).text) (uuid4 0).text users' = 0
      · rw [if_neg (not_not.mpr h)]
        exact tokenLoop_run_of_not_held h fuel 1
      · rw [if_pos h]
        exact tokenLoop_run_of_held h fuel 1

end Auth

end Fastrak
