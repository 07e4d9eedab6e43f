import Provisioning.Binary64
import Provisioning.Table

/-!
# JSON trees

An object is a list of fields in the order of their keys, each key once: `ofFields` brings any
list of fields into that form, the last of several equal keys winning. Whole numbers and doubles
are told apart, also when they are numerically equal.
-/
namespace Provisioning

namespace Json

/-- A JSON number: a whole number of at most sixty-four bits, or a double. -/
inductive Number where
  | integer (i : Int)
  | double (d : Binary64)
  deriving DecidableEq

protected def Number.beq : Number → Number → Bool
  | .integer i, .integer j => i == j
  | .double d, .double e => d == e
  | _, _ => false

instance : BEq Number := ⟨Number.beq⟩

end Json

inductive Json where
  | null
  | bool (b : Bool)
  | number (n : Json.Number)
  | string (s : String)
  | array (items : List Json)
  | object (fields : List (String × Json))

namespace Json

/-- The object of a list of fields; the last of several equal keys wins. -/
def ofFields (fields : List (String × Json)) : Json :=
  .object (Table.ofList fields).entries

def integer (i : Int) : Json := .number (.integer i)

/-- The tree of a double; there is no JSON number for a NaN or an infinity. -/
def double (d : Binary64) : Json :=
  if d.isFinite then .number (.double d) else .null

def strings (items : List String) : Json := .array (items.map .string)

def field? (key : String) : Json → Option Json
  | .object fields => fields.lookup key
  | _ => none

mutual

/-- The tree with every text in it, keys included, changed by a function. -/
def mapText (f : String → String) : Json → Json
  | .string s => .string (f s)
  | .array items => .array (mapItems f items)
  | .object fields => .object (mapFields f fields)
  | j => j

def mapItems (f : String → String) : List Json → List Json
  | [] => []
  | j :: js => mapText f j :: mapItems f js

def mapFields (f : String → String) : List (String × Json) → List (String × Json)
  | [] => []
  | (k, j) :: fs => (f k, mapText f j) :: mapFields f fs

end

mutual

protected def beq : Json → Json → Bool
  | .null, .null => true
  | .bool a, .bool b => a == b
  | .number a, .number b => a == b
  | .string a, .string b => a == b
  | .array a, .array b => beqItems a b
  | .object a, .object b => beqFields a b
  | _, _ => false

def beqItems : List Json → List Json → Bool
  | [], [] => true
  | a :: as, b :: bs => Json.beq a b && beqItems as bs
  | _, _ => false

def beqFields : List (String × Json) → List (String × Json) → Bool
  | [], [] => true
  | (k, a) :: as, (l, b) :: bs => k == l && Json.beq a b && beqFields as bs
  | _, _ => false

end

instance : BEq Json := ⟨Json.beq⟩

end Json

end Provisioning
