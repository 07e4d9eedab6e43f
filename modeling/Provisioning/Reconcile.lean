import Provisioning.Connector
import Provisioning.Delta.Apply

/-!
# Update reconciliation

Values are added and removed by the resource itself if it offers that. Otherwise the changed
attributes are fetched, their new values computed, and the result written back by a replacing
update. Fetch and update are two calls; what happens to the object between them is not noticed.
-/
namespace Provisioning

/-- How an update by value reaches the resource. -/
inductive Path where
  | native
  | fetchAndMerge
  deriving DecidableEq

def Path.label : Path → String
  | .native => "native"
  | .fetchAndMerge => "fetch-and-merge"

/-- Refuses a resource that cannot look up and replace, naming the first that is missing. -/
def Capabilities.requireFetchAndReplace (c : Capabilities) : Except Error Unit := do
  c.require .search
  c.require .update

/-- The path that a resource allows. -/
def Path.select (c : Capabilities) : Except Error Path :=
  if c.supports .updateAttributeValues then .ok .native
  else do
    c.requireFetchAndReplace
    return .fetchAndMerge

/-- What a change makes of an attribute of the base: an addition appends the new values, a removal
keeps the values that equal none of the removed ones, and drops what is not there. -/
def mergeOne (mode : UpdateMode) (base : AttributeSet) (change : Attribute) : Option Attribute :=
  match mode, base.get? change.name.text with
  | .add, none => some change
  | .add, some current => some ⟨change.name, current.values ++ change.values⟩
  | .remove, none => none
  | .remove, some current =>
    some ⟨change.name, current.values.filter fun v => !change.values.any (· == v)⟩

/-- The attributes to replace: one for each changed attribute, empty ones to be cleared. -/
def mergeChanges (mode : UpdateMode) (changes base : AttributeSet) : AttributeSet :=
  ⟨changes.toList.filterMap (mergeOne mode base)⟩

variable {σ : Type}

/-- The attributes of the given names, fetched with otherwise unchanged options. -/
def fetchAttributes (c : Connector σ) (cls : ObjectClass) (uid : Uid) (names : List String)
    (options : Options) : Action σ AttributeSet := do
  match ← c.getObject cls uid (options.asking names) with
  | some found => return found.attributes
  | none => .fail (.objectNotFound cls.text uid.text)

/-- Adds or removes attribute values on one object. -/
def reconcile (c : Connector σ) (cls : ObjectClass) (uid : Uid) (changes : AttributeSet)
    (mode : UpdateMode) (options : Options) : Action σ Uid := do
  match ← .ofExcept (Path.select c.capabilities) with
  | .native =>
    match mode with
    | .add => c.addValues cls uid changes options
    | .remove => c.removeValues cls uid changes options
  | .fetchAndMerge =>
    let base ← fetchAttributes c cls uid changes.names options
    c.update cls uid (mergeChanges mode changes base) options

/-- Applies deltas on a resource that has no operation for them; no further changes are reported. -/
def reconcileDeltas (c : Connector σ) (cls : ObjectClass) (uid : Uid) (deltas : DeltaSet)
    (options : Options) : Action σ DeltaSet := do
  .ofExcept c.capabilities.requireFetchAndReplace
  let base ← fetchAttributes c cls uid deltas.names options
  let applied ← .ofTraced (deltas.run base)
  let _ ← c.update cls uid (applied.restrict deltas.names) options
  return Keyed.empty

end Provisioning
