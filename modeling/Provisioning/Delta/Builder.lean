import Provisioning.Action
import Provisioning.Delta

/-!
# Building deltas and sets of them

A delta is built step by step. A step that cannot be made is left out, and the first fault of that
kind is reported when the delta is built, before the name is looked at. A set of deltas that is at
hand grows by one delta at a time; a delta that cannot be added leaves it as it is.
-/
namespace Provisioning

namespace Delta

/-- A delta under construction: its name, the steps so far, and the first fault. -/
structure Builder where
  name : String
  ops : List ValueOp
  fault : Option Error

namespace Builder

def start (name : String) : Builder := ⟨name, [], none⟩

/-- Appends a finished step. -/
def op (b : Builder) (step : ValueOp) : Builder := { b with ops := b.ops ++ [step] }

def add (b : Builder) (values : List Value) : Builder := b.op (.add values)

def deleteMatching (b : Builder) (filter : Filter Value) : Builder := b.op (.deleteMatching filter)

def deleteAll (b : Builder) : Builder := b.op .deleteAll

def merge (b : Builder) (filter : Option (Filter Value)) (deltas : List Delta) : Builder :=
  match Op.merge? filter deltas with
  | .ok step => b.op step
  | .error e => { b with fault := b.fault.or (some e) }

def build (b : Builder) : Except Error Delta :=
  match b.fault with
  | some e => .error e
  | none => Delta.complex? b.name b.ops

end Builder

end Delta

/-- Adds a delta to the set at hand; a name that is taken is an invalid argument. -/
def DeltaSet.inserting (d : Delta) : Action DeltaSet Unit := do
  let grown ← .ofExcept ((← .get).add? d)
  .modify fun _ => grown

end Provisioning
