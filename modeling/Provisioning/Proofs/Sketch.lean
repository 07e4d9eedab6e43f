import Mathlib.Data.List.Basic
import Provisioning.Proofs.Wire

/-!
# Documents before their checks

A sketch is what a document spells: its texts and values in their places, where a name may be blank
and names may be repeated. A document is well shaped if it can be read as a sketch. Building a
sketch calls the constructors on its parts: on the fields of an object in their order, on the values
of an attribute before its name, and on a set when all of its attributes are there.
-/
namespace Provisioning

open Json (Draft)

mutual

/-- A value as a document spells it. -/
inductive Sketch where
  | content (value : Value)
  | object (fields : List FieldSketch)

inductive FieldSketch where
  | objectClass (text : String)
  | uid (text : String)
  | attributes (attributes : List AttributeSketch)

inductive AttributeSketch where
  | mk (name : String) (values : List Sketch)

end

/-- The key of a field. -/
def FieldSketch.key : FieldSketch → String
  | .objectClass _ => "object_class"
  | .uid _ => "uid"
  | .attributes _ => "attributes"

def hasKey (fs : List FieldSketch) (key : String) : Bool := fs.any fun f => f.key == key

mutual

def Sketch.build : Sketch → Except Error Value
  | .content v => .ok v
  | .object fs => do
    let s ← buildFields ⟨none, none, none⟩ fs
    return .ofObject (← s.object)

def buildFields (s : Wire.Slots) : List FieldSketch → Except Error Wire.Slots
  | [] => .ok s
  | f :: fs => do
    let s ← FieldSketch.build s f
    buildFields s fs

def FieldSketch.build (s : Wire.Slots) : FieldSketch → Except Error Wire.Slots
  | .objectClass text => (ObjectClass.of? text).map fun c => { s with objectClass := some c }
  | .uid text => (Uid.of? text).map fun u => { s with uid := some u }
  | .attributes as => do
    let as ← buildAttributes as
    (AttributeSet.of? as).map fun as => { s with attributes := some as }

def AttributeSketch.build : AttributeSketch → Except Error Attribute
  | ⟨n, vs⟩ => do
    let vs ← buildValues vs
    Attribute.of? n vs

def buildAttributes : List AttributeSketch → Except Error (List Attribute)
  | [] => .ok []
  | a :: as => do
    let a ← AttributeSketch.build a
    let as ← buildAttributes as
    return a :: as

def buildValues : List Sketch → Except Error (List Value)
  | [] => .ok []
  | v :: vs => do
    let v ← Sketch.build v
    let vs ← buildValues vs
    return v :: vs

end

def buildSet (as : List AttributeSketch) : Except Error AttributeSet := do
  let as ← buildAttributes as
  AttributeSet.of? as

def buildSlots (fs : List FieldSketch) : Except Error Wire.Slots :=
  buildFields ⟨none, none, none⟩ fs

def buildObject (fs : List FieldSketch) : Except Error EmbeddedObject := do
  let s ← buildSlots fs
  s.object

def buildRecord (fs : List FieldSketch) : Except Error Record := do
  let s ← buildSlots fs
  s.record

theorem buildValues_eq_mapM (vs : List Sketch) : buildValues vs = vs.mapM Sketch.build := by
  induction vs with
  | nil => rfl
  | cons v vs ih => rw [buildValues, List.mapM_cons, ih]

theorem buildAttributes_eq_mapM (as : List AttributeSketch) :
    buildAttributes as = as.mapM AttributeSketch.build := by
  induction as with
  | nil => rfl
  | cons a as ih => rw [buildAttributes, List.mapM_cons, ih]

theorem AttributeSketch.build_mk (n : String) (vs : List Sketch) :
    AttributeSketch.build ⟨n, vs⟩ = (vs.mapM Sketch.build >>= fun vs => Attribute.of? n vs) := by
  rw [AttributeSketch.build, buildValues_eq_mapM]

theorem buildSet_eq (as : List AttributeSketch) :
    buildSet as = (as.mapM AttributeSketch.build >>= fun as => AttributeSet.of? as) := by
  rw [buildSet, buildAttributes_eq_mapM]

theorem FieldSketch.build_attributes (s : Wire.Slots) (as : List AttributeSketch) :
    FieldSketch.build s (.attributes as) =
      (buildSet as).map fun as => { s with attributes := some as } := by
  rw [FieldSketch.build, buildSet]
  cases buildAttributes as <;> rfl

theorem buildFields_append (s : Wire.Slots) (fs gs : List FieldSketch) :
    buildFields s (fs ++ gs) = (buildFields s fs >>= fun s => buildFields s gs) := by
  induction fs generalizing s with
  | nil => rfl
  | cons f fs ih =>
    rw [List.cons_append, buildFields, buildFields]
    cases FieldSketch.build s f with
    | error e => rfl
    | ok s => exact ih s

theorem buildSlots_append (fs : List FieldSketch) (f : FieldSketch) :
    buildSlots (fs ++ [f]) = (buildSlots fs >>= fun s => f.build s) := by
  rw [buildSlots, buildFields_append]
  refine congrArg (buildSlots fs >>= ·) (funext fun s => ?_)
  rw [buildFields]
  cases f.build s <;> rfl

namespace Wire

def spellField (attributes : Draft → Except Error (List AttributeSketch)) :
    String → Option (Draft → Except Error FieldSketch)
  | "object_class" => some fun d => (asText d).map .objectClass
  | "uid" => some fun d => (asText d).map .uid
  | "attributes" => some fun d => (attributes d).map .attributes
  | _ => none

/-- Adds a field that has one of the keys, once for each key. -/
def spellStep (keys : List String) (attributes : Draft → Except Error (List AttributeSketch))
    (fs : List FieldSketch) (key : String) : Option (Draft → Except Error (List FieldSketch)) :=
  if key ∈ keys then
    (spellField attributes key).map fun read d =>
      if hasKey fs key then unreadable else (read d).map fun f => fs ++ [f]
  else none

/-- Reads the fields of an object that have one of the keys, for each of which there must be one. -/
def spellFields (keys : List String) (attributes : Draft → Except Error (List AttributeSketch))
    (d : Draft) : Except Error (List FieldSketch) := do
  let fs ← fields keys (spellStep keys attributes) [] d
  if keys.all (hasKey fs) then return fs else unreadable

def spellAttribute (value : Draft → Except Error Sketch) (d : Draft) :
    Except Error AttributeSketch := do
  let (name, values) ← pair "name" "values" asText (asList value) d
  let name ← present name
  let values ← present values
  return ⟨name, values⟩

def spellContent (value : Draft → Except Error Sketch) : ValueKind → Draft → Except Error Sketch
  | .embedded, d => (spellFields objectKeys (asList (spellAttribute value)) d).map .object
  | kind, d => (contentOf (fun _ => unreadable) kind d).map .content

def spellWithin : Nat → Bool → Draft → Except Error Sketch
  | 0, _, _ => unreadable
  | depth + 1, kept, d => tagged kept (fun kept => spellContent (spellWithin depth kept)) d

end Wire

def Sketch.ofDraft (d : Draft) : Except Error Sketch := Wire.spellWithin d.height false d

def AttributeSketch.ofDraft : Draft → Except Error AttributeSketch :=
  Wire.spellAttribute Sketch.ofDraft

def spellSet : Draft → Except Error (List AttributeSketch) := Wire.asList AttributeSketch.ofDraft

def spellObject : Draft → Except Error (List FieldSketch) :=
  Wire.spellFields Wire.objectKeys spellSet

def spellRecord : Draft → Except Error (List FieldSketch) :=
  Wire.spellFields Wire.recordKeys spellSet

namespace Wire

section

variable {α β κ ι : Type}

/-- What building says, as reading says it. -/
inductive Comes : Except Error α → Except Error α → Prop where
  | made (a : α) : Comes (.ok a) (.ok a)
  | refused (fault : Fault) :
    Comes (.error (.invalidArgument fault)) (.error (.document (.invalid fault)))

/-- Reading that fails where nothing can be spelled, and else comes to what is built. -/
def Agrees (build : κ → Except Error α) (spelled : Except Error κ) (read : Except Error α) : Prop :=
  match spelled with
  | .ok k => Comes (build k) read
  | .error _ => ∃ e, read = .error e

/-- A constructor that refuses nothing but its arguments. -/
def Blaming (made : Except Error α) : Prop :=
  ∀ e, made = .error e → ∃ fault, e = .invalidArgument fault

theorem comes_checked {made : Except Error α} (h : Blaming made) : Comes made (checked made) := by
  cases made with
  | ok a => exact .made a
  | error e =>
    obtain ⟨fault, rfl⟩ := h e rfl
    exact .refused fault

variable {build : κ → Except Error α} {next : ι → Except Error β} {x : Except Error κ}
  {r : Except Error α}

theorem Agrees.comes {k : κ} (h : Agrees build x r) (hx : x = .ok k) : Comes (build k) r := by
  subst hx
  exact h

/-- What is read was spelled, and is what is built of it. -/
theorem Agrees.built {a : α} (h : Agrees build x (.ok a)) : ∃ k, x = .ok k ∧ build k = .ok a := by
  cases x with
  | error e =>
    obtain ⟨e', he'⟩ := h
    cases he'
  | ok k =>
    have hcomes : Comes (build k) (.ok a) := h
    generalize hbuild : build k = built at hcomes
    cases hcomes
    exact ⟨k, rfl, hbuild⟩

theorem Agrees.of_ok {k : κ} {a : α} (h : build k = .ok a) : Agrees build (.ok k) (.ok a) := by
  show Comes (build k) (.ok a)
  rw [h]
  exact .made a

/-- Reading one part after another. What cannot be built stays so with what follows. -/
theorem Agrees.bind {y : κ → Except Error ι} {q : α → Except Error β} (h : Agrees build x r)
    (hbuilt : ∀ k a, build k = .ok a → Agrees next (y k) (q a))
    (hfailed : ∀ k e l, build k = .error e → y k = .ok l → next l = .error e) :
    Agrees next (x >>= y) (r >>= q) := by
  cases x with
  | error e =>
    obtain ⟨e', rfl⟩ := h
    exact ⟨e', rfl⟩
  | ok k =>
    have hcomes : Comes (build k) r := h
    show Agrees next (y k) (r >>= q)
    cases hbuild : build k with
    | ok a =>
      rw [hbuild] at hcomes
      cases hcomes
      exact hbuilt k a hbuild
    | error e =>
      rw [hbuild] at hcomes
      cases hcomes with
      | refused fault =>
        cases hy : y k with
        | error e => exact ⟨_, rfl⟩
        | ok l =>
          show Comes (next l) _
          rw [hfailed k _ l hbuild hy]
          exact .refused fault

theorem Agrees.map {f : κ → ι} {g : α → β} (h : Agrees build x r)
    (hnext : ∀ k, next (f k) = (build k).map g) : Agrees next (x.map f) (r.map g) := by
  cases x with
  | error e =>
    obtain ⟨e', rfl⟩ := h
    exact ⟨e', rfl⟩
  | ok k =>
    have hcomes : Comes (build k) r := h
    show Comes (next (f k)) (r.map g)
    rw [hnext k]
    generalize build k = built at hcomes
    cases hcomes with
    | made a => exact .made (g a)
    | refused fault => exact .refused fault

/-- A constructor that is called last is a last step of building. -/
theorem Agrees.make {make : α → Except Error β} (h : Agrees build x r)
    (hmake : ∀ a, Blaming (make a)) :
    Agrees (fun k => build k >>= make) x (r >>= fun a => checked (make a)) := by
  cases x with
  | error e =>
    obtain ⟨e', rfl⟩ := h
    exact ⟨e', rfl⟩
  | ok k =>
    have hcomes : Comes (build k) r := h
    show Comes (build k >>= make) (r >>= fun a => checked (make a))
    generalize build k = built at hcomes
    cases hcomes with
    | made a => exact comes_checked (hmake a)
    | refused fault => exact .refused fault

theorem Agrees.refl (x : Except Error κ) : Agrees .ok x x := by
  cases x with
  | error e => exact ⟨e, rfl⟩
  | ok k => exact .of_ok rfl

theorem Agrees.unreadable (build : κ → Except Error α) : Agrees build unreadable unreadable :=
  ⟨_, rfl⟩

/-- Lists are spelled and built item by item. -/
theorem asList_agrees {spell : Draft → Except Error κ} {item : Draft → Except Error α}
    (h : ∀ d, Agrees build (spell d) (item d)) (d : Draft) :
    Agrees (fun ks => ks.mapM build) (asList spell d) (asList item d) := by
  cases d with
  | array items =>
    rw [asList, asList]
    induction items with
    | nil => exact .of_ok rfl
    | cons e items ih =>
      rw [List.mapM_cons, List.mapM_cons]
      refine (h e).bind (fun k a hk => ih.bind (fun ks as hks => ?_) fun ks err l hks hl => ?_)
        fun k err l hk hl => ?_
      · refine .of_ok ?_
        rw [List.mapM_cons, hk, hks]
        rfl
      · cases hl
        rw [List.mapM_cons, hk, hks]
        rfl
      · obtain ⟨ks, -, hl⟩ := of_bind_ok hl
        cases hl
        rw [List.mapM_cons, hk]
        rfl
  | _ => exact .unreadable _

end

theorem blaming_map {α β : Type} {made : Except Error α} (h : Blaming made) (f : α → β) :
    Blaming (made.map f) :=
  fun e he => h e (of_map_error he)

theorem blaming_require (role : NameRole) (text : String) : Blaming (Name.require role text) := by
  intro e he
  unfold Name.require at he
  split at he <;> cases he
  exact ⟨_, rfl⟩

theorem blaming_attribute (n : String) (vs : List Value) : Blaming (Attribute.of? n vs) :=
  blaming_map (blaming_require _ n) _

theorem blaming_attributeSet (as : List Attribute) : Blaming (AttributeSet.of? as) := by
  intro e he
  unfold AttributeSet.of? at he
  cases h : Keyed.ofList? as with
  | ok s =>
    rw [h] at he
    cases he
  | error a =>
    rw [h] at he
    cases he
    exact ⟨_, rfl⟩

theorem blaming_objectClass (text : String) : Blaming (ObjectClass.of? text) :=
  blaming_map (blaming_require _ text) _

theorem blaming_uid (text : String) : Blaming (Uid.of? text) :=
  blaming_map (blaming_require _ text) _

end Wire

end Provisioning
