import Provisioning.Name

/-!
# Collections keyed by name

An ordered collection in which a name finds at most one item, the first that carries it up to
case. `put` and `insert` replace an item at its place and append one with a new name; `ofList?`
accepts exactly the lists in which no name repeats.
-/
namespace Provisioning

structure Keyed (α : Type) where
  toList : List α

namespace Keyed

variable {α : Type}

def empty : Keyed α := ⟨[]⟩

instance : Inhabited (Keyed α) := ⟨empty⟩

def size (s : Keyed α) : Nat := s.toList.length
def isEmpty (s : Keyed α) : Bool := s.toList.isEmpty

variable [HasName α]

/-- The names as the items spell them, in order. -/
def names (s : Keyed α) : List String := s.toList.map fun a => (HasName.name a).text

/-- The item of the given name. -/
def get? (s : Keyed α) (name : String) : Option α := s.toList.find? (HasName.is · name)

def contains (s : Keyed α) (name : String) : Bool := (s.get? name).isSome

/-- Replaces the first item of the same name, or appends. -/
def putList (a : α) : List α → List α
  | [] => [a]
  | b :: rest => if HasName.is b (HasName.name a).text then a :: rest else b :: putList a rest

/-- The collection with an item put at the place of its namesake, or at the end. -/
def put (s : Keyed α) (a : α) : Keyed α := ⟨putList a s.toList⟩

/-- Puts an item into a list, and says which item it replaced. -/
def insertList (a : α) : List α → Option α × List α
  | [] => (none, [a])
  | b :: rest =>
    if HasName.is b (HasName.name a).text then (some b, a :: rest)
    else
      let (replaced, rest) := insertList a rest
      (replaced, b :: rest)

/-- Puts an item into the collection, and says which item it replaced. -/
def insert (s : Keyed α) (a : α) : Option α × Keyed α :=
  let (replaced, items) := insertList a s.toList
  (replaced, ⟨items⟩)

/-- The collection without the item of the given name. -/
def erase (s : Keyed α) (name : String) : Keyed α := ⟨s.toList.eraseP (HasName.is · name)⟩

/-- Takes the item of the given name out of the collection, if there is one. -/
def remove (s : Keyed α) (name : String) : Option α × Keyed α :=
  match s.toList.findIdx? (HasName.is · name) with
  | none => (none, s)
  | some i => (s.toList[i]?, ⟨s.toList.eraseIdx i⟩)

/-- The items that one of the given names finds, in their order. -/
def restrict (s : Keyed α) (names : List String) : Keyed α :=
  ⟨s.toList.filter fun a => names.any (HasName.is a ·)⟩

/-- The first item whose name an item of `seen` or an earlier item of the list carries. -/
def firstRepeat? (seen : List α) : List α → Option α
  | [] => none
  | a :: rest =>
    if seen.any (HasName.is · (HasName.name a).text) then some a
    else firstRepeat? (seen ++ [a]) rest

/-- The collection of a list in which no name repeats; else the first item to repeat one. -/
def ofList? (items : List α) : Except α (Keyed α) :=
  match firstRepeat? [] items with
  | some a => .error a
  | none => .ok ⟨items⟩

@[simp] theorem toList_put (s : Keyed α) (a : α) : (s.put a).toList = putList a s.toList := rfl

@[simp] theorem toList_erase (s : Keyed α) (n : String) :
    (s.erase n).toList = s.toList.eraseP (HasName.is · n) := rfl

end Keyed

end Provisioning
