import Provisioning.Delta

/-!
# Checks before a call

What a request must satisfy before it reaches a connector. The configuration of the facade says
which attributes are operational, and whether deltas are emulated on a resource without them.
-/
namespace Provisioning

structure Config where
  operational : List String
  emulateDeltas : Bool
  deriving DecidableEq

namespace Config

def default : Config := ⟨operationalNames, true⟩

instance : Inhabited Config := ⟨default⟩

/-- Whether an attribute is operational, in any spelling. -/
def isOperational (c : Config) (name : String) : Bool :=
  c.operational.any (Text.sameName · name)

end Config

/-- Refuses the class that stands for every class. -/
def checkClass (cls : ObjectClass) : Except Error Unit :=
  if cls.isEvery then .error (.invalidArgument (.everyClass cls.text)) else .ok ()

/-- Refuses attributes with an identifier among them. -/
def checkAttributes (parameter : Parameter) (attributes : AttributeSet) : Except Error Unit :=
  if attributes.contains uidName then .error (.invalidArgument (.identifierGiven parameter))
  else .ok ()

/-- Refuses values of operational attributes, naming the first. -/
def checkValueChanges (config : Config) (cls : ObjectClass) (values : AttributeSet) :
    Except Error Unit := do
  checkClass cls
  checkAttributes .values values
  match values.toList.find? fun a => config.isOperational a.name.text with
  | some a => .error (.invalidArgument (.operationalAttribute a.name.text))
  | none => .ok ()

/-- Refuses a delta for the identifier. -/
def checkDeltas (cls : ObjectClass) (deltas : DeltaSet) : Except Error Unit := do
  checkClass cls
  if deltas.contains uidName then .error (.invalidArgument (.identifierGiven .deltas))
  else .ok ()

end Provisioning
