import Fastrak.Order.Environment

/-!
# The amounts of a request

A controller takes the arguments of a request as they come: an amount may be a number, but
also a text, a list or an object. The endpoints test it for truth, add it, negate it and write
it in a field, and each of the last three raises on some values. `Amount` are these operations,
so that an endpoint is one definition, for requests whose amounts are numbers and for requests
with any `Value` alike.
-/

namespace Fastrak

open Transaction

/-- Values that a request gives for an amount. -/
class Amount (V : Type) where
  /-- `bool(value)` -/
  truthy : V → Bool
  /-- `type(value).__name__` -/
  typeName : V → String
  /-- The float that the value is as an operand of `-` and `/`, and the message for a type
  that has none. -/
  operand : Settings → (String → String) → V → Except String ℚ
  /-- `value + other` -/
  add : Settings → V → V → Except String V
  /-- What a field of type `Float` or `Monetary` stores for the value:
  `float(value or 0.0)`. -/
  store : Settings → V → Except String ℚ

namespace Amount

/-- The message of an operator that the types of its operands do not have. -/
def unsupported (operator left right : String) : String :=
  "unsupported operand type(s) for " ++ operator ++ ": '" ++ left ++ "' and '" ++ right ++ "'"

def unsupportedUnary (operator type : String) : String :=
  "bad operand type for unary " ++ operator ++ ": '" ++ type ++ "'"

end Amount

/-! ## Numbers -/

/-- The amounts of the documented requests: numbers, added exactly. -/
@[default_instance] instance : Amount ℚ where
  truthy q := q ≠ 0
  typeName _ := "float"
  operand _ _ q := pure q
  add _ a b := pure (a + b)
  store _ q := pure q

@[simp] theorem Amount.truthy_rat (q : ℚ) : Amount.truthy q = decide (q ≠ 0) := rfl

@[simp] theorem Amount.operand_rat (st : Settings) (message : String → String) (q : ℚ) :
    Amount.operand st message q = pure q := rfl

@[simp] theorem Amount.add_rat (st : Settings) (a b : ℚ) : Amount.add st a b = pure (a + b) := rfl

@[simp] theorem Amount.store_rat (st : Settings) (q : ℚ) : Amount.store st q = pure q := rfl

/-- An argument that may be `null`. -/
instance {V : Type} [Amount V] : Amount (Option V) where
  truthy v := v.any Amount.truthy
  typeName v := (v.map Amount.typeName).getD "NoneType"
  operand
    | st, message, some v => Amount.operand st message v
    | _, message, none => throw (message "NoneType")
  add
    | st, some a, some b => some <$> Amount.add st a b
    | _, a, b => throw (Amount.unsupported "+" ((a.map Amount.typeName).getD "NoneType")
        ((b.map Amount.typeName).getD "NoneType"))
  store
    | st, some a => Amount.store st a
    | _, none => pure 0

/-! ## Any value -/

/-- A JSON value other than `null`. Of a list its length is given and of an object the number
of its keys, as no more of them is looked at. -/
inductive Value
  | bool (b : Bool)
  | int (n : ℤ)
  | float (q : ℚ)
  | text (s : String)
  | list (length : ℕ)
  | object (size : ℕ)
  deriving DecidableEq, Repr

namespace Value

def truthy : Value → Bool
  | bool b => b
  | int n => n ≠ 0
  | float q => q ≠ 0
  | text s => s ≠ ""
  | list length => length ≠ 0
  | object size => size ≠ 0

def typeName : Value → String
  | bool _ => "bool"
  | int _ => "int"
  | float _ => "float"
  | text _ => "str"
  | list _ => "list"
  | object _ => "dict"

/-- `False` and `True` count as the integers 0 and 1. -/
def int? : Value → Option ℤ
  | bool b => some b.toInt
  | int n => some n
  | _ => none

/-- The float of a number. No float is as large as some integers. -/
def toFloat? (st : Settings) : Value → Option (Except String ℚ)
  | float q => some (pure (st.arithmetic.round q))
  | v => v.int?.map fun n =>
      if 2 ^ 1024 - 2 ^ 970 ≤ |n| then throw "int too large to convert to float"
      else pure (st.arithmetic.round n)

/-- `value + other`: integers are added exactly, other numbers as floats, texts and lists are
put after each other. -/
def add (st : Settings) (v w : Value) : Except String Value :=
  match v.int?, w.int?, v.toFloat? st, w.toFloat? st with
  | some m, some n, _, _ => pure (int (m + n))
  | _, _, some a, some b => do return float (st.arithmetic.add (← a) (← b))
  | _, _, _, _ =>
      match v, w with
      | text s, text t => pure (text (s ++ t))
      | list m, list n => pure (list (m + n))
      | text _, w => throw ("can only concatenate str (not \"" ++ w.typeName ++ "\") to str")
      | list _, w => throw ("can only concatenate list (not \"" ++ w.typeName ++ "\") to list")
      | v, w => throw (Amount.unsupported "+" v.typeName w.typeName)

/-- `float(value or 0.0)` -/
def store (st : Settings) (v : Value) : Except String ℚ :=
  match v.toFloat? st, v with
  | some q, _ => q
  | none, text s =>
      if s = "" then pure 0
      else
        match st.floatOfText s with
        | some q => pure q
        | none => throw ("could not convert string to float: '" ++ s ++ "'")
  | none, v =>
      if v.truthy then
        throw ("float() argument must be a string or a number, not '" ++ v.typeName ++ "'")
      else pure 0

instance : Amount Value where
  truthy := truthy
  typeName := typeName
  operand st message v := (v.toFloat? st).getD (throw (message v.typeName))
  add := add
  store := store

end Value

end Fastrak
