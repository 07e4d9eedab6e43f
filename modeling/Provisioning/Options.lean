import Provisioning.Json
import Provisioning.Name

/-!
# Options of a call

Which attributes a look-up should return, and free settings that a connector may interpret.
-/
namespace Provisioning

structure Options where
  attributesToGet : Option (List String)
  settings : Table Json

namespace Options

def default : Options := ⟨none, Table.empty⟩

instance : Inhabited Options := ⟨default⟩

instance : BEq Options :=
  ⟨fun a b => a.attributesToGet == b.attributesToGet &&
    Json.beqFields a.settings.entries b.settings.entries⟩

/-- The options with exactly the given attributes to return. -/
def asking (o : Options) (names : List String) : Options := { o with attributesToGet := some names }

def setting (o : Options) (key : String) (value : Json) : Options :=
  { o with settings := o.settings.put key value }

def setting? (o : Options) (key : String) : Option Json := o.settings.find? key

/-- Whether an attribute is to be returned; without a list every one is. -/
def wants (o : Options) (name : String) : Bool :=
  match o.attributesToGet with
  | none => true
  | some names => names.any (Text.sameName · name)

end Options

end Provisioning
