import Provisioning.Binary64
import Provisioning.Identity
import Provisioning.Instant
import Provisioning.Keyed

/-!
# Values, attributes and embedded objects

An attribute is a name with an ordered list of values; a value is a scalar or an object embedded
in it, which has attributes of its own. Equality goes by content: names and object classes up to
case, values in order, attribute sets in any order.

An embedded object may carry a mark by which its holder recognises it. The mark says which object
it is, and does not take part in equality.
-/
namespace Provisioning

mutual

/-- A single value of an attribute. -/
inductive Value where
  | string (s : String)
  | integer (i : Int64)
  | double (d : Binary64)
  | boolean (b : Bool)
  | binary (bytes : List UInt8)
  | dateTime (t : Instant)
  | embedded (mark : Option Nat) (object : EmbeddedObject)

/-- An object inside a value; it has a class and attributes, but no uid. -/
structure EmbeddedObject where
  objectClass : ObjectClass
  attributes : Keyed Attribute

/-- A name with an ordered list of values. -/
structure Attribute where
  name : Name
  values : List Value

end

/-- Attributes of which no two share a name. -/
abbrev AttributeSet := Keyed Attribute

instance : HasName Attribute := ⟨Attribute.name⟩

mutual

def Value.beq : Value → Value → Bool
  | .string a, .string b => a == b
  | .integer a, .integer b => a == b
  | .double a, .double b => a == b
  | .boolean a, .boolean b => a == b
  | .binary a, .binary b => a == b
  | .dateTime a, .dateTime b => a == b
  | .embedded _ a, .embedded _ b => EmbeddedObject.beq a b
  | _, _ => false

def EmbeddedObject.beq : EmbeddedObject → EmbeddedObject → Bool
  | ⟨c, ⟨as⟩⟩, ⟨d, bs⟩ => c == d && (as.length == bs.size && attributesIn as bs)

def Attribute.beq : Attribute → Attribute → Bool
  | ⟨n, vs⟩, b => n.is b.name.text && valuesBeq vs b.values

def valuesBeq : List Value → List Value → Bool
  | [], [] => true
  | a :: as, b :: bs => Value.beq a b && valuesBeq as bs
  | _, _ => false

/-- Whether each of the attributes has an equal one in the set. -/
def attributesIn : List Attribute → Keyed Attribute → Bool
  | [], _ => true
  | a :: as, s =>
    (match s.get? a.name.text with
      | some b => Attribute.beq a b
      | none => false) && attributesIn as s

end

instance : BEq Value := ⟨Value.beq⟩
instance : BEq EmbeddedObject := ⟨EmbeddedObject.beq⟩
instance : BEq Attribute := ⟨Attribute.beq⟩

namespace Value

/-- Wraps an object without a mark. -/
def ofObject (object : EmbeddedObject) : Value := .embedded none object

def isEmbedded : Value → Bool
  | .embedded .. => true
  | _ => false

def string? : Value → Option String
  | .string s => some s
  | _ => none

def integer? : Value → Option Int64
  | .integer i => some i
  | _ => none

def boolean? : Value → Option Bool
  | .boolean b => some b
  | _ => none

def object? : Value → Option EmbeddedObject
  | .embedded _ o => some o
  | _ => none

/-- The mark of an embedded object. -/
def mark? : Value → Option Nat
  | .embedded m _ => m
  | _ => none

/-- Whether two values are one embedded object, recognised by its mark. -/
def sameInstance (a b : Value) : Bool :=
  a.mark?.isSome && a.mark? == b.mark?

end Value

namespace Attribute

/-- The attribute with a name and values; a blank name is an invalid argument. -/
def of? (name : String) (values : List Value) : Except Error Attribute :=
  (Name.require .attribute name).map (Attribute.mk · values)

def isEmpty (a : Attribute) : Bool := a.values.isEmpty

/-- The value of an attribute that has exactly one. -/
def single? (a : Attribute) : Option Value :=
  match a.values with
  | [v] => some v
  | _ => none

end Attribute

namespace AttributeSet

/-- The set of a list of attributes; a repeated name is an invalid argument. -/
def of? (attributes : List Attribute) : Except Error AttributeSet :=
  (Keyed.ofList? attributes).mapError fun a => .invalidArgument (.repeatedAttribute a.name.text)

/-- Equal size, and for each attribute on the left an equal one on the right. -/
protected def beq (s t : AttributeSet) : Bool :=
  s.size == t.size && attributesIn s.toList t

instance : BEq AttributeSet := ⟨AttributeSet.beq⟩

/-- The values under a name; none if there is no such attribute. -/
def values (s : AttributeSet) (name : String) : List Value :=
  ((s.get? name).map Attribute.values).getD []

end AttributeSet

/-- A whole object, as a look-up returns it. -/
structure Record where
  objectClass : ObjectClass
  uid : Uid
  attributes : AttributeSet

namespace Record

protected def beq (a b : Record) : Bool :=
  a.objectClass == b.objectClass && a.uid == b.uid && a.attributes == b.attributes

instance : BEq Record := ⟨Record.beq⟩

end Record

end Provisioning
