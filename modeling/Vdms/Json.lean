import Vdms.Pmgd

/-!
# JSON Values

The part of jsoncpp's `Json::Value` that `PMGDQuery` uses. An object is the list of its
members in iteration order; the keys of an object are distinct. An accessor applied to a
value it cannot convert raises a `Json::LogicError`. Reals and their conversions belong
to the platform, so the accessors that would print or truncate a real take the
conversion from there.
-/

namespace Vdms

/-- `Json::Value`. `intValue` and `uintValue` are one constructor: they differ only in
the range of the number. -/
inductive Json where
  | null
  | int (z : ℤ)
  | real (x : Double)
  | string (s : String)
  | bool (b : Bool)
  | array (xs : List Json)
  | object (members : List (String × Json))

/-- What parsing a query may raise: `Json::LogicError`, or VDMS's own
`ExceptionCommand`. -/
inductive QueryError where
  | logicError
  | exceptionCommand (msg : String)
deriving DecidableEq

namespace Json

/-- The members of an object with their keys, the elements of an array with their
indices; other values have none. -/
def members : Json → List (String × Json)
  | .object ms => ms
  | .array xs => xs.zipIdx.map fun p => (toString p.2, p.1)
  | _ => []

/-- The values an iteration goes over. -/
def elements (j : Json) : List Json := j.members.map Prod.snd

/-- `size()`: 0 for a value that is neither an array nor an object. -/
def size (j : Json) : ℕ := j.members.length

def isNull : Json → Bool
  | .null => true
  | _ => false

def isArray : Json → Bool
  | .array _ => true
  | _ => false

def isObject : Json → Bool
  | .object _ => true
  | _ => false

/-- `operator[](index)`: null behind the end of an array and for null. -/
def index (j : Json) (i : ℕ) : Except QueryError Json :=
  match j with
  | .array xs => .ok (xs[i]?.getD .null)
  | .null => .ok .null
  | _ => .error .logicError

/-- `operator[](key)`: null for a key that an object does not have and for null. -/
def get (j : Json) (key : String) : Except QueryError Json :=
  match j with
  | .object ms => .ok ((ms.lookup key).getD .null)
  | .null => .ok .null
  | _ => .error .logicError

/-- `isMember(key)`. -/
def isMember (j : Json) (key : String) : Bool :=
  match j with
  | .object ms => (ms.lookup key).isSome
  | _ => false

section Conversions

variable [Platform]

/-- `asString()`. -/
def asString : Json → Except QueryError String
  | .null => .ok ""
  | .string s => .ok s
  | .bool b => .ok (if b then "true" else "false")
  | .int z => .ok (toString z)
  | .real x => .ok (Platform.realToString x)
  | _ => .error .logicError

/-- Conversion to an integer in a range, with an error outside of it. -/
def asInteger (lo hi : ℤ) : Json → Except QueryError ℤ
  | .null => .ok 0
  | .int z => if lo ≤ z ∧ z ≤ hi then .ok z else .error .logicError
  | .real x =>
      let z := Platform.realTruncate x
      if lo ≤ z ∧ z ≤ hi then .ok z else .error .logicError
  | .bool b => .ok (if b then 1 else 0)
  | _ => .error .logicError

def asInt (j : Json) : Except QueryError ℤ := j.asInteger (-2 ^ 31) (2 ^ 31 - 1)

def asUInt (j : Json) : Except QueryError ℕ := (j.asInteger 0 (2 ^ 32 - 1)).map Int.toNat

def asInt64 (j : Json) : Except QueryError ℤ := j.asInteger (-2 ^ 63) (2 ^ 63 - 1)

def asUInt64 (j : Json) : Except QueryError ℕ := (j.asInteger 0 (2 ^ 64 - 1)).map Int.toNat

/-- `asBool()`. -/
def asBool : Json → Except QueryError Bool
  | .null => .ok false
  | .bool b => .ok b
  | .int z => .ok (z ≠ 0)
  | .real x => .ok (!Platform.realIsZero x)
  | _ => .error .logicError

end Conversions

end Json

end Vdms
