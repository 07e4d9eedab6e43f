/-!
# Operations of a resource

The six operations that a resource may offer, in their fixed order.
-/
namespace Provisioning

inductive Operation where
  | create
  | search
  | update
  | updateAttributeValues
  | complexUpdateDelta
  | delete
  deriving DecidableEq

namespace Operation

def all : List Operation :=
  [.create, .search, .update, .updateAttributeValues, .complexUpdateDelta, .delete]

theorem mem_all (op : Operation) : op ∈ all := by
  cases op <;> decide

/-- The name in messages and in JSON. -/
def label : Operation → String
  | .create => "create"
  | .search => "search"
  | .update => "update"
  | .updateAttributeValues => "update_attribute_values"
  | .complexUpdateDelta => "complex_update_delta"
  | .delete => "delete"

/-- The place in the fixed order. -/
def index : Operation → Nat
  | .create => 0
  | .search => 1
  | .update => 2
  | .updateAttributeValues => 3
  | .complexUpdateDelta => 4
  | .delete => 5

end Operation

/-- Whether values are added or removed. -/
inductive UpdateMode where
  | add
  | remove
  deriving DecidableEq

def UpdateMode.label : UpdateMode → String
  | .add => "add"
  | .remove => "remove"

end Provisioning
