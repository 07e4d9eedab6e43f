import Provisioning.Base64
import Provisioning.Capabilities
import Provisioning.Facade.Checks
import Provisioning.Instant.Text
import Provisioning.Json
import Provisioning.Options
import Provisioning.Value

/-!
# The JSON form of objects and settings

A value is an object of its type and its content. Objects are written with their keys in order.
-/
namespace Provisioning

/-- The kinds of values. -/
inductive ValueKind where
  | string
  | integer
  | double
  | boolean
  | binary
  | dateTime
  | embedded
  deriving DecidableEq

namespace ValueKind

def all : List ValueKind := [.string, .integer, .double, .boolean, .binary, .dateTime, .embedded]

def label : ValueKind → String
  | .string => "string"
  | .integer => "integer"
  | .double => "double"
  | .boolean => "boolean"
  | .binary => "binary"
  | .dateTime => "dateTime"
  | .embedded => "embedded"

end ValueKind

/-- The JSON form of a value's type and content. -/
def taggedJson (kind : ValueKind) (content : Json) : Json :=
  .object [("type", .string kind.label), ("value", content)]

mutual

/-- The JSON form of a value, given that of a double. -/
def Value.encode (double : Binary64 → Json) : Value → Json
  | .string s => taggedJson .string (.string s)
  | .integer i => taggedJson .integer (.integer i.toInt)
  | .double d => taggedJson .double (double d)
  | .boolean b => taggedJson .boolean (.bool b)
  | .binary bytes => taggedJson .binary (.string (Base64.encode bytes))
  | .dateTime t => taggedJson .dateTime (.string (t.text "Z"))
  | .embedded _ o => taggedJson .embedded (EmbeddedObject.encode double o)

def EmbeddedObject.encode (double : Binary64 → Json) : EmbeddedObject → Json
  | ⟨c, ⟨as⟩⟩ =>
    .object [("attributes", .array (encodeAttributes double as)), ("object_class", .string c.text)]

def Attribute.encode (double : Binary64 → Json) : Attribute → Json
  | ⟨n, vs⟩ => .object [("name", .string n.text), ("values", .array (encodeValues double vs))]

def encodeValues (double : Binary64 → Json) : List Value → List Json
  | [] => []
  | v :: vs => Value.encode double v :: encodeValues double vs

def encodeAttributes (double : Binary64 → Json) : List Attribute → List Json
  | [] => []
  | a :: as => Attribute.encode double a :: encodeAttributes double as

end

def AttributeSet.encode (double : Binary64 → Json) (s : AttributeSet) : Json :=
  .array (encodeAttributes double s.toList)

/-- The document of a value, with a null for a double that JSON has no number for. -/
def Value.toJson (v : Value) : Json := v.encode Json.double
def EmbeddedObject.toJson (o : EmbeddedObject) : Json := o.encode Json.double
def Attribute.toJson (a : Attribute) : Json := a.encode Json.double
def AttributeSet.toJson (s : AttributeSet) : Json := s.encode Json.double

def ObjectClass.toJson (c : ObjectClass) : Json := .string c.text

def Uid.toJson (u : Uid) : Json := .string u.text

def Record.toJson (r : Record) : Json :=
  .object
    [("attributes", r.attributes.toJson), ("object_class", r.objectClass.toJson),
     ("uid", r.uid.toJson)]

/-- An absent list of attributes and an empty set of settings are left out. -/
def Options.toJson (o : Options) : Json :=
  let names := match o.attributesToGet with
    | some names => [("attributesToGet", Json.strings names)]
    | none => []
  let settings :=
    if o.settings.isEmpty then [] else [("options", Json.object o.settings.entries)]
  .object (names ++ settings)

def Config.toJson (c : Config) : Json :=
  .object
    [("emulateComplexDelta", .bool c.emulateDeltas),
     ("operationalAttributes", .strings c.operational)]

def Operation.toJson (op : Operation) : Json := .string op.label

def Capabilities.toJson (c : Capabilities) : Json :=
  .object [("operations", .array (c.toList.map Operation.toJson))]

def UpdateMode.toJson (m : UpdateMode) : Json := .string m.label

def Op.Kind.toJson (k : Op.Kind) : Json := .string k.label

end Provisioning
