import Provisioning.Connector

/-!
# Observed connectors

A connector that does what another one does and keeps a list of the calls that it received.
-/
namespace Provisioning

/-- One call of a connector's method, with its arguments. -/
inductive Invocation where
  | create (objectClass : ObjectClass) (attributes : AttributeSet) (options : Options)
  | getObject (objectClass : ObjectClass) (uid : Uid) (options : Options)
  | update (objectClass : ObjectClass) (uid : Uid) (attributes : AttributeSet) (options : Options)
  | changeValues (mode : UpdateMode) (objectClass : ObjectClass) (uid : Uid)
      (values : AttributeSet) (options : Options)
  | updateDelta (objectClass : ObjectClass) (uid : Uid) (deltas : DeltaSet) (options : Options)
  | delete (objectClass : ObjectClass) (uid : Uid) (options : Options)

/-- The state of a connector beside the calls that it has received, the latest last. -/
structure Observation (σ : Type) where
  resource : σ
  calls : List Invocation

namespace Connector

variable {σ α : Type}

/-- Notes a call and then makes it. -/
def noted (call : Invocation) (act : Action σ α) : Action (Observation σ) α := do
  .modify fun s => { s with calls := s.calls ++ [call] }
  act.onPart Observation.resource fun r s => { s with resource := r }

/-- The connector that notes each call before it makes it. -/
def observed (c : Connector σ) : Connector (Observation σ) where
  capabilities := c.capabilities
  update cls uid as o := noted (.update cls uid as o) (c.update cls uid as o)
  create cls as o := noted (.create cls as o) (c.create cls as o)
  getObject cls uid o := noted (.getObject cls uid o) (c.getObject cls uid o)
  addValues cls uid vs o := noted (.changeValues .add cls uid vs o) (c.addValues cls uid vs o)
  removeValues cls uid vs o :=
    noted (.changeValues .remove cls uid vs o) (c.removeValues cls uid vs o)
  updateDelta cls uid ds o := noted (.updateDelta cls uid ds o) (c.updateDelta cls uid ds o)
  delete cls uid o := noted (.delete cls uid o) (c.delete cls uid o)

end Connector

end Provisioning
