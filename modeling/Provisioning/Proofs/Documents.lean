import Provisioning.Proofs.Edit

/-!
# Requests as changes of documents

What a request means on a resource that offers everything, never fails of itself, and holds nothing
but documents. `Documents.serve` reads at most one document and changes at most that one; a request
that fails has no documents to return, so it changes none. The resource in memory is compared with
it in `Provisioning.Proofs.Service`.
-/
namespace Provisioning

/-- What a resource holds: under each key a document or none. -/
abbrev Documents := Store.Key → Option Json

namespace Documents

/-- The attributes of an object. -/
def read (docs : Documents) (cls : ObjectClass) (uid : Uid) : Except Error AttributeSet :=
  match docs (Memory.key cls uid) with
  | some document => AttributeSet.ofJson document
  | none => .error (.objectNotFound cls.text uid.text)

/-- The documents with another one, or none, under a key. -/
def set (docs : Documents) (key : Store.Key) (document : Option Json) : Documents :=
  fun k => if k = key then document else docs k

/-- The document under the object's key after an edit. -/
def edit (docs : Documents) (cls : ObjectClass) (uid : Uid) (e : Edit) :
    Except Error Documents := do
  let current ← docs.read cls uid
  return docs.set (Memory.key cls uid) (some (e.run current).toJson)

/-- The uid that a new object is to have; `fresh` if its attributes do not give one. -/
def uidOf (fresh : Uid) (attributes : AttributeSet) : Except Error Uid :=
  match Memory.givenUid? attributes with
  | some text => Uid.of? text
  | none => .ok fresh

/-- Makes a new object under a key that is free. -/
def create (fresh : Uid) (docs : Documents) (cls : ObjectClass) (attributes : AttributeSet) :
    Except Error (Uid × Documents) := do
  let uid ← uidOf fresh attributes
  let key := Memory.key cls uid
  if (docs key).isSome then .error (.storage (.alreadyExists key))
  else return (uid, docs.set key (some attributes.toJson))

/-- The object that a look-up returns, with the attributes that the options want. -/
def lookUp (docs : Documents) (cls : ObjectClass) (uid : Uid) (options : Options) :
    Except Error (Option Record) :=
  match docs (Memory.key cls uid) with
  | some document => do
    let attributes ← AttributeSet.ofJson document
    return some ⟨cls, uid, ⟨attributes.toList.filter fun a => options.wants a.name.text⟩⟩
  | none => .ok none

/-- Takes an object away. -/
def delete (docs : Documents) (cls : ObjectClass) (uid : Uid) : Except Error Documents :=
  if (docs (Memory.key cls uid)).isSome then .ok (docs.set (Memory.key cls uid) none)
  else .error (.objectNotFound cls.text uid.text)

/-- Edits an object and answers what the edit answers. -/
def serveEdit (docs : Documents) (cls : ObjectClass) (uid : Uid) (e : Edit) :
    Except Error (Reply × Documents) :=
  (docs.edit cls uid e).map (e.reply uid, ·)

/-- Serves a request: what it answers, and the documents afterwards. -/
def serve (fresh : Uid) (docs : Documents) : Invocation → Except Error (Reply × Documents)
  | .create cls as _ => (docs.create fresh cls as).map fun p => (.uid p.1, p.2)
  | .getObject cls uid o => (docs.lookUp cls uid o).map (.found ·, docs)
  | .update cls uid as _ => docs.serveEdit cls uid (.replace as)
  | .changeValues mode cls uid vs _ => docs.serveEdit cls uid (.change mode vs)
  | .updateDelta cls uid ds _ => docs.serveEdit cls uid (.apply ds)
  | .delete cls uid _ => (docs.delete cls uid).map (.done, ·)

theorem serve_request (fresh : Uid) (docs : Documents) (cls : ObjectClass) (uid : Uid)
    (options : Options) (e : Edit) :
    docs.serve fresh (e.request cls uid options) = docs.serveEdit cls uid e := by
  cases e <;> rfl

@[simp] theorem set_self (docs : Documents) (key : Store.Key) (document : Option Json) :
    docs.set key document key = document :=
  if_pos rfl

theorem set_of_ne (docs : Documents) {key k : Store.Key} (document : Option Json) (h : k ≠ key) :
    docs.set key document k = docs k :=
  if_neg h

theorem set_eq_self {docs : Documents} {key : Store.Key} {document : Option Json}
    (h : docs key = document) : docs.set key document = docs := by
  funext k
  by_cases hk : k = key
  · rw [hk, set_self, h]
  · exact set_of_ne docs document hk

theorem create_of_error {fresh : Uid} {attributes : AttributeSet} {e : Error}
    (h : uidOf fresh attributes = .error e) (docs : Documents) (cls : ObjectClass) :
    docs.create fresh cls attributes = .error e := by
  rw [create, h]
  rfl

theorem create_of_taken {fresh uid : Uid} {attributes : AttributeSet}
    (h : uidOf fresh attributes = .ok uid) {docs : Documents} {cls : ObjectClass}
    (htaken : (docs (Memory.key cls uid)).isSome = true) :
    docs.create fresh cls attributes =
      .error (.storage (.alreadyExists (Memory.key cls uid))) := by
  rw [create, h]
  exact if_pos htaken

theorem create_of_free {fresh uid : Uid} {attributes : AttributeSet}
    (h : uidOf fresh attributes = .ok uid) {docs : Documents} {cls : ObjectClass}
    (hfree : ¬ (docs (Memory.key cls uid)).isSome = true) :
    docs.create fresh cls attributes =
      .ok (uid, docs.set (Memory.key cls uid) (some attributes.toJson)) := by
  rw [create, h]
  exact if_neg hfree

/-- What is read is read of the document under the object's key. -/
theorem read_eq_ok_iff {docs : Documents} {cls : ObjectClass} {uid : Uid} {s : AttributeSet} :
    docs.read cls uid = .ok s ↔
      ∃ document, docs (Memory.key cls uid) = some document ∧
        AttributeSet.ofJson document = .ok s := by
  unfold read
  cases docs (Memory.key cls uid) with
  | none => simp
  | some document => simp

theorem serveEdit_of_ok {docs : Documents} {cls : ObjectClass} {uid : Uid} {s : AttributeSet}
    (h : docs.read cls uid = .ok s) (e : Edit) :
    docs.serveEdit cls uid e =
      .ok (e.reply uid, docs.set (Memory.key cls uid) (some (e.run s).toJson)) := by
  rw [serveEdit, edit, h]
  rfl

theorem serveEdit_of_error {docs : Documents} {cls : ObjectClass} {uid : Uid} {err : Error}
    (h : docs.read cls uid = .error err) (e : Edit) :
    docs.serveEdit cls uid e = .error err := by
  rw [serveEdit, edit, h]
  rfl

/-- The documents that are left by what may have failed; those there were if it has. -/
def left {α : Type} (docs : Documents) : Except Error (α × Documents) → Documents
  | .ok (_, after) => after
  | .error _ => docs

end Documents

/-- What a request has to satisfy before it reaches a connector. -/
def Config.check (config : Config) : Invocation → Except Error Unit
  | .create cls as _ => do
    checkClass cls
    checkAttributes .createAttributes as
  | .getObject .. => .ok ()
  | .update cls _ as _ => do
    checkClass cls
    checkAttributes .replaceAttributes as
  | .changeValues _ cls _ vs _ => checkValueChanges config cls vs
  | .updateDelta cls _ ds _ => checkDeltas cls ds
  | .delete cls _ _ => checkClass cls

/-- Serves a request that the configuration lets pass. -/
def Documents.serveChecked (config : Config) (fresh : Uid) (docs : Documents) (r : Invocation) :
    Except Error (Reply × Documents) := do
  config.check r
  docs.serve fresh r

end Provisioning
