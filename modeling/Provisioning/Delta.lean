import Provisioning.Filter

/-!
# Edits as data

A delta changes one attribute: it replaces the values, or runs a list of steps over them. A step
adds elements at the end, deletes elements that a filter accepts, or merges deltas into those that
a filter accepts. The same steps, over whole attributes, edit an object. Two equal deltas are of
one kind, with equal contents and the same filter instances.
-/
namespace Provisioning

/-- One step over an ordered list of elements, with `δ` for the deltas of a merge. -/
inductive Op (α δ : Type) where
  | add (elements : List α)
  | delete (filter : Option (Filter α))
  | merge (filter : Filter α) (deltas : Keyed δ)

/-- A change of one attribute. -/
inductive Delta where
  | complex (name : Name) (ops : List (Op Value Delta))
  | replace (name : Name) (values : List Value)

/-- A step over the values of one attribute. -/
abbrev ValueOp := Op Value Delta

/-- A step over the attributes of one object. -/
abbrev AttributeOp := Op Attribute Delta

/-- Deltas of which no two are for the same attribute. -/
abbrev DeltaSet := Keyed Delta

namespace Delta

/-- The name of the attribute that a delta changes, in the delta's spelling. -/
def name : Delta → Name
  | .complex n _ => n
  | .replace n _ => n

instance : HasName Delta := ⟨name⟩

/-- The delta that runs steps over an attribute's values. -/
def complex? (name : String) (ops : List ValueOp) : Except Error Delta :=
  (Name.require .delta name).map (Delta.complex · ops)

/-- The delta that gives an attribute exactly the given values. -/
def replace? (name : String) (values : List Value) : Except Error Delta :=
  (Name.require .delta name).map (Delta.replace · values)

end Delta

namespace DeltaSet

/-- The set of a list of deltas; a repeated name is an invalid argument. -/
def of? (deltas : List Delta) : Except Error DeltaSet :=
  (Keyed.ofList? deltas).mapError fun d => .invalidArgument (.repeatedDelta d.name.text)

/-- The set with one more delta; a name that is taken is an invalid argument. -/
def add? (s : DeltaSet) (d : Delta) : Except Error DeltaSet :=
  if s.contains d.name.text then .error (.invalidArgument (.repeatedDelta d.name.text))
  else .ok ⟨s.toList ++ [d]⟩

end DeltaSet

namespace Op

variable {α : Type}

/-- The step that deletes what a filter accepts. -/
def deleteMatching {δ : Type} (filter : Filter α) : Op α δ := .delete (some filter)

/-- The step that deletes every element. -/
def deleteAll {δ : Type} : Op α δ := .delete none

/-- The step that merges deltas; it needs a filter, and deltas for different attributes. -/
def merge? (filter : Option (Filter α)) (deltas : List Delta) : Except Error (Op α Delta) :=
  match filter with
  | none => .error (.invalidArgument .mergeWithoutFilter)
  | some f => (DeltaSet.of? deltas).map (Op.merge f)

/-- The kind of a step. -/
inductive Kind where
  | add
  | delete
  | merge
  deriving DecidableEq

def Kind.label : Kind → String
  | .add => "add"
  | .delete => "delete"
  | .merge => "merge"

variable {δ : Type}

def kind : Op α δ → Kind
  | .add _ => .add
  | .delete _ => .delete
  | .merge .. => .merge

/-- The filter of a deletion or a merge. -/
def filter? : Op α δ → Option (Filter α)
  | .add _ => none
  | .delete f => f
  | .merge f _ => some f

/-- The elements of an addition. -/
def elements? : Op α δ → Option (List α)
  | .add es => some es
  | _ => none

end Op

/-- Whether two optional filters are both absent or one instance. -/
def sameFilter? {α : Type} : Option (Filter α) → Option (Filter α) → Bool
  | none, none => true
  | some f, some g => f.same g
  | _, _ => false

mutual

def Delta.beq : Delta → Delta → Bool
  | .complex n ops, .complex m ops' => n.is m.text && valueOpsBeq ops ops'
  | .replace n vs, .replace m ws => n.is m.text && vs == ws
  | _, _ => false

def valueOpBeq : Op Value Delta → Op Value Delta → Bool
  | .add vs, .add ws => vs == ws
  | .delete f, .delete g => sameFilter? f g
  | .merge f ⟨ds⟩, .merge g es => f.same g && (ds.length == es.size && deltasIn ds es)
  | _, _ => false

def valueOpsBeq : List (Op Value Delta) → List (Op Value Delta) → Bool
  | [], [] => true
  | a :: as, b :: bs => valueOpBeq a b && valueOpsBeq as bs
  | _, _ => false

/-- Whether each of the deltas has an equal one in the set. -/
def deltasIn : List Delta → Keyed Delta → Bool
  | [], _ => true
  | d :: ds, s =>
    (match s.get? d.name.text with
      | some e => Delta.beq d e
      | none => false) && deltasIn ds s

end

instance : BEq Delta := ⟨Delta.beq⟩
instance : BEq ValueOp := ⟨valueOpBeq⟩

/-- Equal size, and for each delta on the left an equal one on the right. -/
def DeltaSet.beq (s t : DeltaSet) : Bool :=
  s.size == t.size && deltasIn s.toList t

instance : BEq DeltaSet := ⟨DeltaSet.beq⟩

def attributeOpBeq : AttributeOp → AttributeOp → Bool
  | .add as, .add bs => as == bs
  | .delete f, .delete g => sameFilter? f g
  | .merge f ds, .merge g es => f.same g && ds == es
  | _, _ => false

instance : BEq AttributeOp := ⟨attributeOpBeq⟩

/-- The text of a step, given the text of an element. -/
def Op.text {α : Type} (display : α → String) : Op α Delta → String
  | .add es => "Add: " ++ Text.bracketList (es.map display)
  | .delete none => "Delete: *"
  | .delete (some f) => "Delete: " ++ f.description
  | .merge f ds => "Merge: " ++ f.description ++ " deltas: " ++ Text.quoteList ds.names

def ValueOp.text (op : ValueOp) : String := Op.text Value.display op

def AttributeOp.text (op : AttributeOp) : String := Op.text Attribute.display op

def Delta.text : Delta → String
  | .complex n ops =>
    "Attribute: " ++ Text.braced
      ("Name=" ++ n.text ++ ", valueDeltas=" ++ Text.bracketList (ops.map ValueOp.text))
  | .replace n vs =>
    "Attribute: " ++ Text.braced
      ("Name=" ++ n.text ++ ", replace=" ++ Text.bracketList (vs.map Value.describe))

end Provisioning
