import Provisioning.Filter

/-!
# Evaluation with a record of consultations

Applying an edit asks filters about candidates. A traced result carries, beside the result, every
question that was asked, in order. The result of a traced map or filter is the plain map or filter
of the results; its questions are those of the elements, one after the other.
-/
namespace Provisioning

/-- A filter together with the candidate that it was asked about. -/
inductive Consultation where
  | value (filter : Filter Value) (candidate : Value)
  | attribute (filter : Filter Attribute) (candidate : Attribute)

/-- A result and the consultations that led to it. -/
structure Traced (α : Type) where
  result : α
  asked : List Consultation

namespace Traced

variable {α β : Type}

instance : Monad Traced where
  pure a := ⟨a, []⟩
  bind t f := ⟨(f t.result).result, t.asked ++ (f t.result).asked⟩

@[simp] theorem result_pure (a : α) : (pure a : Traced α).result = a := rfl
@[simp] theorem asked_pure (a : α) : (pure a : Traced α).asked = [] := rfl

@[simp] theorem result_bind (t : Traced α) (f : α → Traced β) :
    (t >>= f).result = (f t.result).result := rfl

@[simp] theorem asked_bind (t : Traced α) (f : α → Traced β) :
    (t >>= f).asked = t.asked ++ (f t.result).asked := rfl

@[simp] theorem result_map (f : α → β) (t : Traced α) : (f <$> t).result = f t.result := rfl

/-- Handles the elements of a list in order. -/
def mapList (f : α → Traced β) : List α → Traced (List β)
  | [] => pure []
  | a :: as => do
    let b ← f a
    let bs ← mapList f as
    return b :: bs

@[simp] theorem result_mapList (f : α → Traced β) (as : List α) :
    (mapList f as).result = as.map fun a => (f a).result := by
  induction as with
  | nil => rfl
  | cons a as ih => simp [mapList, ih]

@[simp] theorem asked_mapList (f : α → Traced β) (as : List α) :
    (mapList f as).asked = as.flatMap fun a => (f a).asked := by
  induction as with
  | nil => rfl
  | cons a as ih => simp [mapList, ih]

/-- Keeps the elements that a question rejects. -/
def dropWhere (f : α → Traced Bool) : List α → Traced (List α)
  | [] => pure []
  | a :: as => do
    let drop ← f a
    let rest ← dropWhere f as
    return if drop then rest else a :: rest

@[simp] theorem result_dropWhere (f : α → Traced Bool) (as : List α) :
    (dropWhere f as).result = as.filter fun a => !(f a).result := by
  induction as with
  | nil => rfl
  | cons a as ih => cases h : (f a).result <;> simp [dropWhere, ih, h]

@[simp] theorem asked_dropWhere (f : α → Traced Bool) (as : List α) :
    (dropWhere f as).asked = as.flatMap fun a => (f a).asked := by
  induction as with
  | nil => rfl
  | cons a as ih => simp [dropWhere, ih]

end Traced

/-- Asks a filter about a value. -/
def Filter.askValue (f : Filter Value) (v : Value) : Traced Bool := ⟨f.accepts v, [.value f v]⟩

/-- Asks a filter about an attribute. -/
def Filter.askAttribute (f : Filter Attribute) (a : Attribute) : Traced Bool :=
  ⟨f.accepts a, [.attribute f a]⟩

end Provisioning
