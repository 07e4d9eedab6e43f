import Provisioning.Action
import Provisioning.Capabilities
import Provisioning.Delta
import Provisioning.Options

/-!
# Connectors

A connector is the adapter to one resource: what it offers, and a method for each operation, as
actions on the resource's state. Replacing attributes is the one method every connector has; the
others refuse unless they are given.
-/
namespace Provisioning

structure Connector (σ : Type) where
  capabilities : Capabilities
  update : ObjectClass → Uid → AttributeSet → Options → Action σ Uid
  create : ObjectClass → AttributeSet → Options → Action σ Uid :=
    fun _ _ _ => .fail (.unsupported .create)
  getObject : ObjectClass → Uid → Options → Action σ (Option Record) :=
    fun _ _ _ => .fail (.unsupported .search)
  addValues : ObjectClass → Uid → AttributeSet → Options → Action σ Uid :=
    fun _ _ _ _ => .fail (.unsupported .updateAttributeValues)
  removeValues : ObjectClass → Uid → AttributeSet → Options → Action σ Uid :=
    fun _ _ _ _ => .fail (.unsupported .updateAttributeValues)
  updateDelta : ObjectClass → Uid → DeltaSet → Options → Action σ DeltaSet :=
    fun _ _ _ _ => .fail (.unsupported .complexUpdateDelta)
  delete : ObjectClass → Uid → Options → Action σ Unit :=
    fun _ _ _ => .fail (.unsupported .delete)

end Provisioning
