import Provisioning.Value.Text

/-!
# Filters

A filter answers whether it accepts a candidate. It is taken as a pure predicate that does not
change: what it answers depends on the candidate alone, however often it is asked. Two filters are
the same only if they are one instance, which its number tells; what they accept is not compared.
-/
namespace Provisioning

/-- A filter over values or attributes: an instance of an immutable predicate. -/
structure Filter (α : Type) where
  id : Nat
  description : String
  accepts : α → Bool

namespace Filter

/-- Whether two filters are one instance. -/
def same {α : Type} (f g : Filter α) : Bool := f.id == g.id

/-- Accepts values equal to the given one. -/
def equalTo (id : Nat) (value : Value) : Filter Value where
  id
  description := describeAs "ValueEquals" value.describe
  accepts v := v == value

/-- Accepts embedded objects whose attribute of the given name holds the value. -/
def embeddedAttributeEquals (id : Nat) (name : String) (value : Value) : Filter Value where
  id
  description :=
    describeFields "EmbeddedAttributeEquals"
      [("name", Text.quote name), ("value", value.describe)]
  accepts v :=
    match v.object? with
    | some o => (o.attributes.get? name).any (·.values.any (· == value))
    | none => false

/-- Accepts attributes of the given name. -/
def attributeNamed (id : Nat) (name : String) : Filter Attribute where
  id
  description := describeAs "AttributeNamed" (Text.quote name)
  accepts a := a.name.is name

/-- Accepts what a rule accepts; the label describes the rule. -/
def predicate {α : Type} (id : Nat) (label : String) (rule : α → Bool) : Filter α where
  id
  description := describeAs "Predicate" (Text.quote label)
  accepts := rule

end Filter

end Provisioning
