import Provisioning.Reconcile
import Provisioning.Store.Actions
import Provisioning.Wire.Decode

/-!
# A resource in memory

Objects are kept as JSON documents. The resource offers whatever capabilities it is given, counts
the calls of each operation, and can be armed to fail the next call of an operation that it
offers. Everything that can go wrong does so before the one write of a call.
-/
namespace Provisioning

/-- The state of the resource. -/
structure Memory where
  store : Store
  /-- How often each operation was called; a number without a bound, where a machine word would
  start from 0 again. -/
  calls : Operation → Nat
  armed : Operation → Option Store.Failure
  /-- How many identifiers have been made up. -/
  generated : Nat

namespace Memory

def empty : Memory := ⟨Store.empty, fun _ => 0, fun _ => none, 0⟩

instance : Inhabited Memory := ⟨empty⟩

def count (op : Operation) (m : Memory) : Memory :=
  { m with calls := fun o => if o = op then m.calls o + 1 else m.calls o }

def resetCalls (m : Memory) : Memory := { m with calls := fun _ => 0 }

/-- Arms a failure; it replaces one that is armed for the same operation. -/
def failNext (op : Operation) (failure : Store.Failure) (m : Memory) : Memory :=
  { m with armed := fun o => if o = op then some failure else m.armed o }

def disarm (op : Operation) (m : Memory) : Memory :=
  { m with armed := fun o => if o = op then none else m.armed o }

def onStore {α : Type} (act : Action Store α) : Action Memory α :=
  act.onPart Memory.store fun s m => { m with store := s }

def key (cls : ObjectClass) (uid : Uid) : Store.Key := .of cls.text uid.text

/-- Starts a call: counts it, checks that it is offered, and fails if a failure is armed. -/
def enter (capabilities : Capabilities) (op : Operation) : Action Memory Unit := do
  .modify (count op)
  .log .trace ("in-memory connector: " ++ op.label)
  .ofExcept (capabilities.require op)
  match (← .get).armed op with
  | some failure =>
    .modify (disarm op)
    .fail (.connector failure)
  | none => return

def load (cls : ObjectClass) (uid : Uid) : Action Memory (Option AttributeSet) := do
  match ← onStore (Store.getting (key cls uid)) with
  | some document => return some (← .ofExcept (AttributeSet.ofJson document))
  | none => return none

def loadExisting (cls : ObjectClass) (uid : Uid) : Action Memory AttributeSet := do
  match ← load cls uid with
  | some attributes => return attributes
  | none => .fail (.objectNotFound cls.text uid.text)

def save (cls : ObjectClass) (uid : Uid) (attributes : AttributeSet) : Action Memory Unit :=
  onStore (Store.putting (key cls uid) attributes.toJson)

/-- Lays one attribute over a set: an empty one clears its name. -/
def layOver (current : AttributeSet) (a : Attribute) : AttributeSet :=
  if a.isEmpty then current.erase a.name.text else current.put a

/-- Lays replacements over the current attributes. -/
def overlay (current replacements : AttributeSet) : AttributeSet :=
  replacements.toList.foldl layOver current

def replaceValues (cls : ObjectClass) (uid : Uid) (current replacements : AttributeSet) :
    Action Memory Uid := do
  save cls uid (overlay current replacements)
  return uid

/-- The text that a new object's uid is to have, if its naming attribute gives one. -/
def givenUid? (attributes : AttributeSet) : Option String :=
  (attributes.get? loginName).bind fun a => a.single?.bind Value.string?

/-- The uid of a new object: the one it is given, or the next made-up one. -/
def newUid (fresh : Nat → Uid) (attributes : AttributeSet) : Action Memory Uid :=
  match givenUid? attributes with
  | some text => .ofExcept (Uid.of? text)
  | none => do
    let uid := fresh (← .get).generated
    .modify fun m => { m with generated := m.generated + 1 }
    return uid

/-- Adds or removes values natively. -/
def changeValues (capabilities : Capabilities) (mode : UpdateMode) (cls : ObjectClass) (uid : Uid)
    (values : AttributeSet) : Action Memory Uid := do
  enter capabilities .updateAttributeValues
  let current ← loadExisting cls uid
  replaceValues cls uid current (mergeChanges mode values current)

/-- The connector to the resource, with the given source of uids. -/
def connector (capabilities : Capabilities) (fresh : Nat → Uid) : Connector Memory where
  capabilities
  create cls attributes _ := do
    enter capabilities .create
    let uid ← newUid fresh attributes
    onStore (Store.inserting (key cls uid) attributes.toJson)
    return uid
  getObject cls uid options := do
    enter capabilities .search
    match ← load cls uid with
    | some attributes =>
      return some ⟨cls, uid, ⟨attributes.toList.filter fun a => options.wants a.name.text⟩⟩
    | none => return none
  update cls uid attributes _ := do
    enter capabilities .update
    let current ← loadExisting cls uid
    replaceValues cls uid current attributes
  addValues cls uid values _ := changeValues capabilities .add cls uid values
  removeValues cls uid values _ := changeValues capabilities .remove cls uid values
  updateDelta cls uid deltas _ := do
    enter capabilities .complexUpdateDelta
    let current ← loadExisting cls uid
    let applied ← .ofTraced (deltas.run current)
    let _ ← replaceValues cls uid current (applied.restrict deltas.names)
    return Keyed.empty
  delete cls uid _ := do
    enter capabilities .delete
    if ← onStore (Store.deleting (key cls uid)) then return
    else .fail (.objectNotFound cls.text uid.text)

/-- The number of stored objects of a class. -/
def objectCount (cls : ObjectClass) : Action Memory Nat := onStore (Store.counting cls.text)

end Memory

end Provisioning
