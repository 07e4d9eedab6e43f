import Provisioning.Text.Characters

/-!
# Names

Attributes, object classes, uids and deltas carry names that are never blank. Whatever has a name
is looked up by any text that folds to the same key.
-/
namespace Provisioning

/-- A text that is not blank. -/
structure Name where
  text : String
  filled : Text.isBlank text = false
  deriving DecidableEq

namespace Name

/-- The name with the given text, unless it is blank. -/
def of? (text : String) : Option Name :=
  if h : Text.isBlank text = false then some ⟨text, h⟩ else none

@[simp] theorem of?_text (n : Name) : of? n.text = some n := by
  simp [of?, n.filled]

theorem text_of_of? {s : String} {n : Name} (h : of? s = some n) : n.text = s := by
  simp only [of?] at h
  split at h
  · cases h; rfl
  · cases h

/-- Whether a name is the given text up to case. -/
def is (n : Name) (text : String) : Bool := Text.sameName n.text text

end Name

/-- What carries a name. -/
class HasName (α : Type) where
  name : α → Name

/-- Whether an item carries the given name, up to case. -/
def HasName.is {α : Type} [HasName α] (a : α) (text : String) : Bool :=
  (HasName.name a).is text

/-- The attribute that would hold an object's identifier. -/
def uidName : String := "__UID__"

/-- The attribute that holds an object's naming value. -/
def loginName : String := "__NAME__"

/-- Attributes that steer a resource; single values are never added to or removed from them. -/
def operationalNames : List String :=
  [loginName, uidName, "__PASSWORD__", "__CURRENT_PASSWORD__", "__ENABLE__", "__ENABLE_DATE__",
   "__DISABLE_DATE__", "__LOCK_OUT__", "__PASSWORD_EXPIRATION_DATE__", "__PASSWORD_EXPIRED__"]

end Provisioning
