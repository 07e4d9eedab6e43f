import Provisioning.Binary64.Decimal
import Provisioning.Instant.Text
import Provisioning.Text.Quoted
import Provisioning.Value

/-!
# The text of values

Display text shows content only; descriptions also show the kind of each value and quote strings.
-/
namespace Provisioning

mutual

def Value.display : Value → String
  | .string s => s
  | .integer i => toString i.toInt
  | .double d => d.text .display
  | .boolean b => if b then "true" else "false"
  | .binary bytes => "<" ++ toString bytes.length ++ " bytes>"
  | .dateTime t => t.text "+00:00"
  | .embedded _ o => EmbeddedObject.display o

def EmbeddedObject.display : EmbeddedObject → String
  | ⟨c, ⟨as⟩⟩ => c.text ++ Text.braced (Text.commaList (attributeDisplays as))

def Attribute.display : Attribute → String
  | ⟨n, vs⟩ => n.text ++ "=" ++ Text.bracketList (valueDisplays vs)

def valueDisplays : List Value → List String
  | [] => []
  | v :: vs => Value.display v :: valueDisplays vs

def attributeDisplays : List Attribute → List String
  | [] => []
  | a :: as => Attribute.display a :: attributeDisplays as

end

/-- A description of fields between braces. -/
def describeFields (type : String) (fields : List (String × String)) : String :=
  type ++ " " ++ Text.braced
    (" " ++ Text.commaList (fields.map fun f => f.1 ++ ": " ++ f.2) ++ " ")

/-- A description of one content in parentheses. -/
def describeAs (type content : String) : String :=
  type ++ "(" ++ content ++ ")"

def ObjectClass.describe (c : ObjectClass) : String :=
  describeAs "ObjectClass" (Text.quote c.text)

mutual

def Value.describe : Value → String
  | .string s => describeAs "String" (Text.quote s)
  | .integer i => describeAs "Integer" (toString i.toInt)
  | .double d => describeAs "Double" (d.text .debug)
  | .boolean b => describeAs "Boolean" (if b then "true" else "false")
  | .binary bytes =>
    describeAs "Binary" (Text.bracketList (bytes.map fun b => toString b.toNat))
  | .dateTime t => describeAs "DateTime" (t.text "Z")
  | .embedded _ o => describeAs "Embedded" (EmbeddedObject.describe o)

def EmbeddedObject.describe : EmbeddedObject → String
  | ⟨c, ⟨as⟩⟩ =>
    describeFields "EmbeddedObject"
      [("object_class", c.describe),
       ("attributes", describeFields "AttributeSet"
          [("attributes", Text.bracketList (attributeDescriptions as))])]

def Attribute.describe : Attribute → String
  | ⟨n, vs⟩ =>
    describeFields "Attribute"
      [("name", Text.quote n.text), ("values", Text.bracketList (valueDescriptions vs))]

def valueDescriptions : List Value → List String
  | [] => []
  | v :: vs => Value.describe v :: valueDescriptions vs

def attributeDescriptions : List Attribute → List String
  | [] => []
  | a :: as => Attribute.describe a :: attributeDescriptions as

end

end Provisioning
