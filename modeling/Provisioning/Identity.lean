import Provisioning.Error

/-!
# Object classes and uids

An object class is recognised in any case, a uid only by its exact text.
-/
namespace Provisioning

/-- The type of an object on a resource. -/
structure ObjectClass where
  name : Name

namespace ObjectClass

def text (c : ObjectClass) : String := c.name.text

instance : BEq ObjectClass := ⟨fun c d => Text.sameName c.text d.text⟩

theorem beq_iff (c d : ObjectClass) : (c == d) = true ↔ Text.fold c.text = Text.fold d.text :=
  Text.sameName_iff _ _

def of? (text : String) : Except Error ObjectClass :=
  (Name.require .objectClass text).map ObjectClass.mk

@[simp] theorem of?_text (c : ObjectClass) : of? c.text = .ok c := by
  simp [of?, text, Except.map]

/-- The class that stands for every class. -/
def every : ObjectClass := ⟨⟨"__ALL__", by decide⟩⟩
def account : ObjectClass := ⟨⟨"__ACCOUNT__", by decide⟩⟩
def group : ObjectClass := ⟨⟨"__GROUP__", by decide⟩⟩

def isEvery (c : ObjectClass) : Bool := c == every

end ObjectClass

/-- The identifier of an object on a resource. -/
structure Uid where
  name : Name
  deriving DecidableEq

namespace Uid

def text (u : Uid) : String := u.name.text

def of? (text : String) : Except Error Uid :=
  (Name.require .uid text).map Uid.mk

@[simp] theorem of?_text (u : Uid) : of? u.text = .ok u := by
  simp [of?, text, Except.map]

end Uid

end Provisioning
