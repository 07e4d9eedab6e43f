import Provisioning.Json
import Provisioning.Store.Failure
import Provisioning.Table

/-!
# A document store in memory

Documents stand in two levels, by folded object class and by identifier. A class stays once it was
mentioned; that shows nowhere, since only its documents are looked up and counted.
-/
namespace Provisioning

structure Store where
  classes : Table (Table Json)

namespace Store

def empty : Store := ⟨Table.empty⟩

instance : Inhabited Store := ⟨empty⟩

/-- The documents under a folded class. -/
def documents (s : Store) (objectClass : String) : Table Json :=
  (s.classes.find? objectClass).getD Table.empty

def get? (s : Store) (key : Key) : Option Json := (s.documents key.objectClass).find? key.id

/-- Sets a document, whether or not there is one. -/
def put (s : Store) (key : Key) (document : Json) : Store :=
  ⟨s.classes.put key.objectClass ((s.documents key.objectClass).put key.id document)⟩

/-- Sets a document under a key that is free. -/
def insert (s : Store) (key : Key) (document : Json) : Except Failure Store :=
  if (s.get? key).isSome then .error (.alreadyExists key) else .ok (s.put key document)

/-- Whether there was a document, and the store without it. -/
def delete (s : Store) (key : Key) : Bool × Store :=
  ((s.get? key).isSome,
    ⟨s.classes.put key.objectClass ((s.documents key.objectClass).erase key.id)⟩)

/-- The number of documents under a class in any spelling. -/
def count (s : Store) (objectClass : String) : Nat :=
  (s.documents (Text.fold objectClass)).size

theorem documents_put (s : Store) (key : Key) (document : Json) (c : String) :
    (s.put key document).documents c =
      if c = key.objectClass then (s.documents c).put key.id document else s.documents c := by
  simp only [documents, put, Table.find?_put]
  by_cases h : c = key.objectClass <;> simp [h]

theorem get?_put (s : Store) (key k : Key) (document : Json) :
    (s.put key document).get? k = if k = key then some document else s.get? k := by
  obtain ⟨c, i⟩ := key
  obtain ⟨d, j⟩ := k
  simp only [get?, documents_put, Key.mk.injEq]
  by_cases h : d = c <;> simp [h, Table.find?_put]

theorem documents_delete (s : Store) (key : Key) (c : String) :
    (s.delete key).2.documents c =
      if c = key.objectClass then (s.documents c).erase key.id else s.documents c := by
  simp only [documents, delete, Table.find?_put]
  by_cases h : c = key.objectClass <;> simp [h]

theorem get?_delete (s : Store) (key k : Key) :
    (s.delete key).2.get? k = if k = key then none else s.get? k := by
  obtain ⟨c, i⟩ := key
  obtain ⟨d, j⟩ := k
  simp only [get?, documents_delete, Key.mk.injEq]
  by_cases h : d = c <;> simp [h, Table.find?_erase]

end Store

end Provisioning
