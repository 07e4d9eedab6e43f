import Provisioning.Delta
import Provisioning.Traced

/-!
# Applying edits

Steps run one after the other over the result so far. A merge asks its filter about embedded
objects only, and what it changes is a new object; everything else is carried over as it is. A
delta is applied to the attribute of its name, or to its absence, and the result takes the
delta's spelling.
-/
namespace Provisioning

mutual

/-- Runs one step over values. -/
def ValueOp.run : Op Value Delta → List Value → Traced (List Value)
  | .add vs, current => pure (current ++ vs)
  | .delete none, _ => pure []
  | .delete (some f), current => Traced.dropWhere f.askValue current
  | .merge f ⟨ds⟩, current => current |> Traced.mapList fun v =>
    match v with
    | .embedded _ o => do
      if ← f.askValue v then
        let attributes ← runDeltas ds o.attributes o.attributes
        return .ofObject ⟨o.objectClass, attributes⟩
      else return v
    | _ => pure v

/-- Runs steps over values, in order. -/
def runOps : List (Op Value Delta) → List Value → Traced (List Value)
  | [], current => pure current
  | op :: ops, current => do
    let next ← ValueOp.run op current
    runOps ops next

/-- Applies a delta to an attribute, or to its absence. -/
def Delta.run : Delta → Option Attribute → Traced Attribute
  | .complex n ops, base => do
    let values ← runOps ops ((base.map Attribute.values).getD [])
    return ⟨n, values⟩
  | .replace n vs, _ => pure ⟨n, vs⟩

/-- Applies deltas to the attributes of `base` and puts the results into `result`. -/
def runDeltas : List Delta → Keyed Attribute → Keyed Attribute → Traced (Keyed Attribute)
  | [], _, result => pure result
  | d :: ds, base, result => do
    let changed ← Delta.run d (base.get? d.name.text)
    runDeltas ds base (result.put changed)

end

/-- Applies a set of deltas to a set of attributes. -/
def DeltaSet.run (s : DeltaSet) (base : AttributeSet) : Traced AttributeSet :=
  runDeltas s.toList base base

/-- Adds an attribute to a list, folding its values into a namesake. -/
def foldIn (current : List Attribute) (a : Attribute) : List Attribute :=
  match current with
  | [] => [a]
  | b :: rest =>
    if b.name.is a.name.text then ⟨b.name, b.values ++ a.values⟩ :: rest
    else b :: foldIn rest a

/-- Runs one step over the attributes of an object. -/
def AttributeOp.run : AttributeOp → List Attribute → Traced (List Attribute)
  | .add as, current => pure (as.foldl foldIn current)
  | .delete none, _ => pure []
  | .delete (some f), current => Traced.dropWhere f.askAttribute current
  | .merge f ds, current => current |> Traced.mapList fun a => do
    if ← f.askAttribute a then
      match ds.get? a.name.text with
      | some d => d.run (some a)
      | none => return a
    else return a

/-- Runs steps over the attributes of an object, in order. -/
def runAttributeOps : List AttributeOp → List Attribute → Traced (List Attribute)
  | [], current => pure current
  | op :: ops, current => do
    let next ← op.run current
    runAttributeOps ops next

/-- The values that steps make of a list. -/
def applyOps (ops : List ValueOp) (values : List Value) : List Value :=
  (runOps ops values).result

/-- The attribute that a delta makes of an attribute or of its absence. -/
def Delta.applyTo (d : Delta) (base : Option Attribute) : Attribute :=
  (d.run base).result

/-- The set that deltas make of a set. -/
def DeltaSet.applyTo (s : DeltaSet) (base : AttributeSet) : AttributeSet :=
  (s.run base).result

/-- The set that object-level steps make of a set. -/
def applyAttributeOps (ops : List AttributeOp) (base : AttributeSet) : AttributeSet :=
  ⟨(runAttributeOps ops base.toList).result⟩

@[simp] theorem applyOps_nil (vs : List Value) : applyOps [] vs = vs := by
  simp [applyOps, runOps]

@[simp] theorem applyOps_cons (op : ValueOp) (ops : List ValueOp) (vs : List Value) :
    applyOps (op :: ops) vs = applyOps ops (ValueOp.run op vs).result := by
  simp [applyOps, runOps]

theorem applyTo_complex (n : Name) (ops : List ValueOp) (base : Option Attribute) :
    (Delta.complex n ops).applyTo base =
      ⟨n, applyOps ops ((base.map Attribute.values).getD [])⟩ := by
  simp [Delta.applyTo, Delta.run, applyOps]

theorem applyTo_replace (n : Name) (vs : List Value) (base : Option Attribute) :
    (Delta.replace n vs).applyTo base = ⟨n, vs⟩ := by
  simp [Delta.applyTo, Delta.run]

@[simp] theorem name_applyTo (d : Delta) (base : Option Attribute) :
    (d.applyTo base).name = d.name := by
  cases d <;> simp [applyTo_complex, applyTo_replace, Delta.name]

end Provisioning
