import Provisioning.Json.Draft
import Provisioning.Wire.Encode

/-!
# Decoding objects and settings

Decoding walks a draft in its own order and stops at the first fault it meets: a part that cannot
be read, a field given twice or missing, content of the wrong type, or a name or set that the
constructors refuse. Fields that mean nothing are skipped, whatever they hold. An array may stand
for an object; its items are then the fields in their fixed order. The content of a value that comes
before its type is kept until the type is known, and the types of values inside kept content have
two more spellings.
-/
namespace Provisioning

namespace Wire

open Json (Draft)

def unreadable {α : Type} : Except Error α := .error (.document .unreadable)

/-- The result of a constructor, as the result of decoding. -/
def checked {α : Type} : Except Error α → Except Error α
  | .error (.invalidArgument fault) => .error (.document (.invalid fault))
  | result => result

def asText : Draft → Except Error String
  | .string s => .ok s
  | _ => unreadable

def asBool : Draft → Except Error Bool
  | .bool b => .ok b
  | _ => unreadable

/-- A whole number between two bounds. -/
def asInteger (least most : Int) : Draft → Except Error Int
  | .number (.integer i) => if least ≤ i ∧ i ≤ most then .ok i else unreadable
  | _ => unreadable

def asInt64 (d : Draft) : Except Error Int64 :=
  (asInteger Int64.minValue.toInt Int64.maxValue.toInt d).map Int64.ofInt

def asDouble : Draft → Except Error Binary64
  | .number (.integer i) => .ok (.ofInt i)
  | .number (.double d) => .ok d
  | .null => .error (.document .nullNumber)
  | _ => unreadable

def asList {α : Type} (item : Draft → Except Error α) : Draft → Except Error (List α)
  | .array items => items.mapM item
  | _ => unreadable

/-- One of several words, alone or as the only key of an object over a null. -/
def asWord {α : Type} (words : List (String × α)) : Draft → Except Error α
  | .string s | .object [(some s, .null)] =>
    match words.lookup s with
    | some a => .ok a
    | none => unreadable
  | _ => unreadable

/-- The items of an array as fields with the given keys; what is left over is a fault. -/
def positional : List String → List Draft → List (Option String × Draft)
  | _, [] => []
  | [], _ :: _ => [(none, .broken)]
  | k :: ks, d :: ds => (some k, d) :: positional ks ds

/-- Reads fields in their order. `step` says what a known key does in a state; fields with any
other key are skipped. -/
def scan {σ : Type} (step : σ → String → Option (Draft → Except Error σ)) :
    σ → List (Option String × Draft) → Except Error σ
  | s, [] => .ok s
  | _, (none, _) :: _ => unreadable
  | s, (some key, d) :: rest =>
    match step s key with
    | some read => do
      let s ← read d
      scan step s rest
    | none => if d.isIntact then scan step s rest else unreadable

/-- Reads an object, or an array of its fields in the order of the keys. -/
def fields {σ : Type} (keys : List String)
    (step : σ → String → Option (Draft → Except Error σ)) (start : σ) : Draft → Except Error σ
  | .object fs => scan step start fs
  | .array items => scan step start (positional keys items)
  | _ => unreadable

/-- Fills a slot that must still be empty. -/
def fill {α : Type} (slot : Option α) (read : Draft → Except Error α) (d : Draft) :
    Except Error (Option α) :=
  if slot.isSome then unreadable else (read d).map some

/-- Fills the slot of one of two fields. -/
def pairStep {α β : Type} (k l : String) (first : Draft → Except Error α)
    (second : Draft → Except Error β) (s : Option α × Option β) (key : String) :
    Option (Draft → Except Error (Option α × Option β)) :=
  if key = k then some fun d => (fill s.1 first d).map (·, s.2)
  else if key = l then some fun d => (fill s.2 second d).map (s.1, ·)
  else none

/-- Reads an object of two fields. -/
def pair {α β : Type} (k l : String) (first : Draft → Except Error α)
    (second : Draft → Except Error β) : Draft → Except Error (Option α × Option β) :=
  fields [k, l] (pairStep k l first second) (none, none)

/-- The content of a field that must be there. -/
def present {α : Type} : Option α → Except Error α
  | some a => .ok a
  | none => unreadable

def kinds : List (String × ValueKind) := ValueKind.all.map fun k => (k.label, k)

/-- The type of a value as a field of an object; in kept content the word may also be the only key
of an object over an empty object. -/
def asKind (kept : Bool) : Draft → Except Error ValueKind
  | .object [(some s, .object [])] => if kept then asWord kinds (.string s) else unreadable
  | d => asWord kinds d

/-- The type of a value as an item of an array: a word, and in kept content also the place of the
kind among all kinds. -/
def asListedKind (kept : Bool) : Draft → Except Error ValueKind
  | .string s => asWord kinds (.string s)
  | .number (.integer i) =>
    if kept ∧ 0 ≤ i then
      match ValueKind.all[i.toNat]? with
      | some k => .ok k
      | none => unreadable
    else unreadable
  | _ => unreadable

/-- What has been read of a value: nothing, its type, its content as a draft, or both. -/
inductive TagState (α : Type) where
  | start
  | tagged (kind : ValueKind)
  | stored (content : Draft)
  | done (value : α)

/-- Reads type and content of a value in either order, given how content is read inside kept
content and outside it. Content is kept as it is, for which every part of it has to be usable. -/
def tagStep {α : Type} (kept : Bool) (content : Bool → ValueKind → Draft → Except Error α) :
    TagState α → String → Option (Draft → Except Error (TagState α))
  | .start, "type" => some fun d => (asKind kept d).map .tagged
  | .start, "value" => some fun d => if d.isUsable then .ok (.stored d) else unreadable
  | .tagged k, "value" => some fun d => (content kept k d).map .done
  | .stored c, "type" => some fun d => do
    let k ← asKind kept d
    (content true k c).map .done
  | .tagged _, "type" | .stored _, "value" | .done _, "type" | .done _, "value" =>
    some fun _ => unreadable
  | _, _ => none

/-- Reads a value as an object, or as an array of its type and its content. -/
def tagged {α : Type} (kept : Bool) (content : Bool → ValueKind → Draft → Except Error α) :
    Draft → Except Error α
  | .object fs => do
    match ← scan (tagStep kept content) .start fs with
    | .done v => .ok v
    | _ => unreadable
  | .array (t :: c :: rest) => do
    let k ← asListedKind kept t
    let v ← content kept k c
    if rest.isEmpty then return v else unreadable
  | _ => unreadable

def asClass (d : Draft) : Except Error ObjectClass := do
  checked (ObjectClass.of? (← asText d))

def asUid (d : Draft) : Except Error Uid := do
  checked (Uid.of? (← asText d))

/-- An attribute, given how values are decoded; its name is looked at last. -/
def asAttribute (value : Draft → Except Error Value) (d : Draft) : Except Error Attribute := do
  let (name, values) ← pair "name" "values" asText (asList value) d
  let name ← present name
  let values ← present values
  checked (Attribute.of? name values)

/-- A set of attributes; repeated names are looked for when all attributes are there. -/
def asAttributeSet (value : Draft → Except Error Value) (d : Draft) :
    Except Error AttributeSet := do
  checked (AttributeSet.of? (← asList (asAttribute value) d))

/-- The slots of an object while it is read. -/
structure Slots where
  objectClass : Option ObjectClass
  uid : Option Uid
  attributes : Option AttributeSet

/-- The object of its slots, which must be filled. -/
def Slots.object (s : Slots) : Except Error EmbeddedObject := do
  let c ← present s.objectClass
  let as ← present s.attributes
  return ⟨c, as⟩

/-- The whole object of its slots, which must be filled. -/
def Slots.record (s : Slots) : Except Error Record := do
  let c ← present s.objectClass
  let u ← present s.uid
  let as ← present s.attributes
  return ⟨c, u, as⟩

/-- Fills the slot of a field that has one of the keys. -/
def slotStep (keys : List String) (attributes : Draft → Except Error AttributeSet) (s : Slots)
    (key : String) : Option (Draft → Except Error Slots) :=
  if key ∈ keys then
    match key with
    | "object_class" => some fun d =>
      (fill s.objectClass asClass d).map fun c => { s with objectClass := c }
    | "uid" => some fun d => (fill s.uid asUid d).map fun u => { s with uid := u }
    | "attributes" => some fun d =>
      (fill s.attributes attributes d).map fun as => { s with attributes := as }
    | _ => none
  else none

/-- Reads the fields of an object that have one of the keys. -/
def slots (keys : List String) (attributes : Draft → Except Error AttributeSet) :
    Draft → Except Error Slots :=
  fields keys (slotStep keys attributes) ⟨none, none, none⟩

def objectKeys : List String := ["object_class", "attributes"]

def recordKeys : List String := ["object_class", "uid", "attributes"]

def asObject (value : Draft → Except Error Value) (d : Draft) :
    Except Error EmbeddedObject := do
  let s ← slots objectKeys (asAttributeSet value) d
  s.object

/-- The content of a value of a given kind, given how nested values are decoded. -/
def contentOf (value : Draft → Except Error Value) : ValueKind → Draft → Except Error Value
  | .string, d => (asText d).map .string
  | .integer, d => (asInt64 d).map .integer
  | .double, d => (asDouble d).map .double
  | .boolean, d => (asBool d).map .boolean
  | .binary, d => do
    match Base64.decode? (← asText d) with
    | some bytes => return .binary bytes
    | none => unreadable
  | .dateTime, d => do
    match Instant.ofText? (← asText d) with
    | some t => return .dateTime t
    | none => unreadable
  | .embedded, d => (asObject value d).map .ofObject

/-- A value, inside kept content or outside it, in which values are nested less than `depth`
levels deep. -/
def valueWithin : Nat → Bool → Draft → Except Error Value
  | 0, _, _ => unreadable
  | depth + 1, kept, d => tagged kept (fun kept => contentOf (valueWithin depth kept)) d

end Wire

namespace Json.Draft

mutual

/-- How many levels a draft is nested. -/
def height : Draft → Nat
  | .array items => itemsHeight items + 1
  | .object fields => fieldsHeight fields + 1
  | _ => 1

def itemsHeight : List Draft → Nat
  | [] => 0
  | d :: ds => max (height d) (itemsHeight ds)

def fieldsHeight : List (Option String × Draft) → Nat
  | [] => 0
  | (_, d) :: fs => max (height d) (fieldsHeight fs)

end

end Json.Draft

open Json (Draft)

def Value.ofDraft (d : Draft) : Except Error Value := Wire.valueWithin d.height false d

def Attribute.ofDraft : Draft → Except Error Attribute := Wire.asAttribute Value.ofDraft

def AttributeSet.ofDraft : Draft → Except Error AttributeSet := Wire.asAttributeSet Value.ofDraft

def EmbeddedObject.ofDraft : Draft → Except Error EmbeddedObject :=
  Wire.asObject Value.ofDraft

def ObjectClass.ofDraft : Draft → Except Error ObjectClass := Wire.asClass

def Uid.ofDraft : Draft → Except Error Uid := Wire.asUid

def Record.ofDraft (d : Draft) : Except Error Record := do
  let s ← Wire.slots Wire.recordKeys AttributeSet.ofDraft d
  s.record

def Options.ofDraft (d : Draft) : Except Error Options := do
  let names : Draft → Except Error (Option (List String))
    | .null => .ok none
    | d => (Wire.asList Wire.asText d).map some
  let settings : Draft → Except Error (Table Json)
    | .object fs =>
      match Draft.fieldsToJson? fs with
      | some entries => .ok (.ofList entries)
      | none => Wire.unreadable
    | _ => Wire.unreadable
  let (n, s) ← Wire.pair "attributesToGet" "options" names settings d
  return ⟨n.getD none, s.getD Table.empty⟩

def Config.ofDraft (d : Draft) : Except Error Config := do
  let (names, emulate) ←
    Wire.pair "operationalAttributes" "emulateComplexDelta" (Wire.asList Wire.asText) Wire.asBool d
  return ⟨names.getD Config.default.operational, emulate.getD Config.default.emulateDeltas⟩

def Operation.ofDraft : Draft → Except Error Operation :=
  Wire.asWord (Operation.all.map fun op => (op.label, op))

def Capabilities.ofDraft (d : Draft) : Except Error Capabilities := do
  let ops ← Wire.fields ["operations"]
    (fun (s : Option (List Operation)) key =>
      if key = "operations" then some (Wire.fill s (Wire.asList Operation.ofDraft)) else none)
    none d
  return .ofList (← Wire.present ops)

def UpdateMode.ofDraft : Draft → Except Error UpdateMode :=
  Wire.asWord [("add", .add), ("remove", .remove)]

def Op.Kind.ofDraft : Draft → Except Error Op.Kind :=
  Wire.asWord [("add", .add), ("delete", .delete), ("merge", .merge)]

/-- Decodes a tree. -/
def decodeJson {α : Type} (decode : Draft → Except Error α) (j : Json) : Except Error α :=
  decode (.ofJson j)

/-- Decodes a text, after which only blanks may follow. -/
def decodeText {α : Type} (decode : Draft → Except Error α) (text : String) : Except Error α := do
  let (d, atEnd) := Json.readText text
  let a ← decode d
  if atEnd then return a else Wire.unreadable

def Value.ofJson : Json → Except Error Value := decodeJson Value.ofDraft

def AttributeSet.ofJson : Json → Except Error AttributeSet := decodeJson AttributeSet.ofDraft

/-- The configuration that a JSON text gives. -/
def Config.ofText : String → Except Error Config := decodeText Config.ofDraft

end Provisioning
