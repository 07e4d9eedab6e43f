import Provisioning.Error

/-!
# Capabilities

Which operations a resource offers, as an explicit set that is consulted before any call.
-/
namespace Provisioning

structure Capabilities where
  supports : Operation → Bool

namespace Capabilities

def empty : Capabilities := ⟨fun _ => false⟩

def full : Capabilities := ⟨fun _ => true⟩

def ofList (ops : List Operation) : Capabilities := ⟨(ops.contains ·)⟩

/-- Everything a replacing resource offers: no updates by value, no deltas. -/
def replaceOnly : Capabilities := ofList [.create, .search, .update, .delete]

def adding (c : Capabilities) (op : Operation) : Capabilities :=
  ⟨fun o => o == op || c.supports o⟩

def dropping (c : Capabilities) (op : Operation) : Capabilities :=
  ⟨fun o => o != op && c.supports o⟩

/-- The operations in their fixed order. -/
def toList (c : Capabilities) : List Operation := Operation.all.filter c.supports

instance : BEq Capabilities := ⟨fun c d => c.toList == d.toList⟩

/-- Refuses an operation that is not offered. -/
def require (c : Capabilities) (op : Operation) : Except Error Unit :=
  if c.supports op then .ok () else .error (.unsupported op)

theorem mem_toList (c : Capabilities) (op : Operation) : op ∈ c.toList ↔ c.supports op = true := by
  simp [toList, Operation.mem_all]

@[ext] theorem ext_supports {c d : Capabilities} (h : ∀ op, c.supports op = d.supports op) :
    c = d := by
  cases c
  cases d
  congr 1
  exact funext h

@[simp] theorem ofList_toList (c : Capabilities) : ofList c.toList = c := by
  ext op
  rw [Bool.eq_iff_iff]
  exact List.contains_iff_mem.trans (mem_toList c op)

end Capabilities

end Provisioning
