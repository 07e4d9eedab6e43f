import Provisioning.Name
import Provisioning.Operation
import Provisioning.Store.Failure

/-!
# Errors

Causes are data; `Error.message` gives each its wording, except those for which the JSON reader has
words of its own. What the constructors say of a part of a document goes through the reader. It
takes the end of a message for the position of the fault, if it reads as one, and writes the
position behind the message again; line 0 stands for no position.
-/
namespace Provisioning

/-- What a name that must not be blank belongs to. -/
inductive NameRole where
  | attribute
  | objectClass
  | uid
  | delta
  deriving DecidableEq

def NameRole.label : NameRole → String
  | .attribute => "Attribute"
  | .objectClass => "Object class"
  | .uid => "Uid"
  | .delta => "Attribute delta"

/-- The arguments of a request in which an identifier must not appear. -/
inductive Parameter where
  | createAttributes
  | replaceAttributes
  | values
  | deltas
  | other (name : String)
  deriving DecidableEq

def Parameter.label : Parameter → String
  | .createAttributes => "createAttributes"
  | .replaceAttributes => "replaceAttributes"
  | .values => "values"
  | .deltas => "deltas"
  | .other name => name

/-- Why an argument can never be valid. -/
inductive Fault where
  | blankName (role : NameRole)
  | repeatedAttribute (name : String)
  | repeatedDelta (name : String)
  | mergeWithoutFilter
  | everyClass (objectClass : String)
  | identifierGiven (parameter : Parameter)
  | operationalAttribute (name : String)
  | other (message : String)
  deriving DecidableEq

def Fault.message : Fault → String
  | .blankName role => role.label ++ " name must not be blank"
  | .repeatedAttribute name => "Duplicated named attributes: " ++ name
  | .repeatedDelta name => "Attribute delta for '" ++ name ++ "' is already present"
  | .mergeWithoutFilter => "Merge filter cannot be absent"
  | .everyClass objectClass =>
    "Operation cannot be performed on the object class " ++ objectClass
  | .identifierGiven parameter => "Parameter '" ++ parameter.label ++ "' contains " ++ uidName
  | .operationalAttribute name =>
    "Operational attribute '" ++ name ++ "' can not be added or removed."
  | .other message => message

namespace Text

/-- The number of at most 64 bits that digits write. -/
def word? (digits : List Char) : Option Nat :=
  let n := Nat.ofDigitChars 10 digits 0
  if !digits.isEmpty && n < 1 <<< 64 then some n else none

/-- What stands before a word and a number at the end of a text, and the number. -/
def splitNumber? (word : String) (s : List Char) : Option (List Char × Nat) := do
  let n ← word? (s.reverse.takeWhile Char.isDigit).reverse
  let rest ← word.toList.isSuffixOf? (s.reverse.dropWhile Char.isDigit).reverse
  return (rest, n)

/-- A message without the position that it ends in, and the line and the column of that. -/
def splitPosition? (s : String) : Option (String × Nat × Nat) := do
  let (s, column) ← splitNumber? " column " s.toList
  let (s, line) ← splitNumber? " at line " s
  return (String.ofList s, line, column)

/-- A message with a position behind it. -/
def withPosition (s : String) (line column : Nat) : String :=
  s ++ " at line " ++ toString line ++ " column " ++ toString column

/-- What the JSON reader shows of a message. -/
def shown (s : String) : String :=
  match splitPosition? s with
  | some (rest, line, column) => if line = 0 then rest else withPosition rest line column
  | none => s

end Text

/-- Why a document cannot be decoded. -/
inductive DocumentFault where
  | invalid (fault : Fault)
  | nullNumber
  | unreadable
  deriving DecidableEq

inductive Error where
  | invalidArgument (fault : Fault)
  | unsupported (operation : Operation)
  | objectNotFound (objectClass uid : String)
  | connector (failure : Store.Failure)
  | storage (failure : Store.Failure)
  | document (fault : DocumentFault)
  deriving DecidableEq

def Fault.invalidArgumentText (f : Fault) : String := "Invalid argument: " ++ f.message

/-- The wording of a fault of a tree; in a text the reader also gives the position. What it says of
a tree that is not of the right form is its own. -/
def DocumentFault.message : DocumentFault → Option String
  | .invalid fault => some (Text.shown fault.invalidArgumentText)
  | .nullNumber => some "invalid type: null, expected f64"
  | .unreadable => none

namespace Error

def message : Error → Option String
  | .invalidArgument fault => some fault.invalidArgumentText
  | .unsupported operation =>
    some ("Connector does not support operation '" ++ operation.label ++ "'")
  | .objectNotFound objectClass uid =>
    some ("Object not found: " ++ objectClass ++ " with uid " ++ uid)
  | .connector failure => some failure.message
  | .storage failure => some ("Storage error: " ++ failure.message)
  | .document fault => fault.message.map ("JSON error: " ++ ·)

def isInvalidArgument : Error → Bool
  | .invalidArgument _ => true
  | _ => false

def isUnsupported : Error → Bool
  | .unsupported _ => true
  | _ => false

def isNotFound : Error → Bool
  | .objectNotFound .. => true
  | _ => false

end Error

/-- The name with the given text; a blank one is an invalid argument. -/
def Name.require (role : NameRole) (text : String) : Except Error Name :=
  match Name.of? text with
  | some n => .ok n
  | none => .error (.invalidArgument (.blankName role))

@[simp] theorem Name.require_text (role : NameRole) (n : Name) :
    Name.require role n.text = .ok n := by
  simp [Name.require]

end Provisioning
