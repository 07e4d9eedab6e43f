import Provisioning.Action
import Provisioning.Store

/-!
# Logged access to a document store

Each access but a count leaves a trace record that names the key.
-/
namespace Provisioning.Store

private def traced (verb : String) (key : Key) : Action Store Unit :=
  .log .trace ("storage " ++ verb ++ " " ++ key.text)

def putting (key : Key) (document : Json) : Action Store Unit := do
  traced "put" key
  .modify (·.put key document)

def inserting (key : Key) (document : Json) : Action Store Unit := do
  traced "insert" key
  match (← .get).insert key document with
  | .ok s => .modify fun _ => s
  | .error failure => .fail (.storage failure)

def getting (key : Key) : Action Store (Option Json) := do
  traced "get" key
  return (← .get).get? key

def deleting (key : Key) : Action Store Bool := do
  traced "delete" key
  let (found, s) := (← .get).delete key
  .modify fun _ => s
  return found

def counting (objectClass : String) : Action Store Nat :=
  return (← .get).count objectClass

end Provisioning.Store
