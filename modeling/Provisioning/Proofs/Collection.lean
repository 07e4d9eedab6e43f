import Provisioning.Delta.Builder
import Provisioning.Proofs.Wire

/-!
# Which lists make collections

A list is taken as it is if no name repeats in it, up to case. Any other list is refused over the
first item that has the name of an earlier one, and the refusal spells the name as that item does.
Sets of attributes, also where they are decoded, and sets of deltas are made so (`lists_collected`).
Adding deltas in place, one after the other, comes to the same, and a delta that is refused leaves
the set as it was.
-/
namespace Provisioning

open Keyed (Distinct)
open Json (Draft)

section

variable {α : Type} [HasName α]

/-- Whether an item is the first in a list to have the name of an earlier one. -/
def Keyed.FirstRepeat (items : List α) (a : α) : Prop :=
  ∃ before after, items = before ++ a :: after ∧ Distinct before ∧
    ∃ b ∈ before, HasName.key b = HasName.key a

/-- Taking exactly the lists in which no name repeats, and refusing any other over the first item
to repeat one. -/
structure Collects (make : List α → Except Error (Keyed α)) (refusal : String → Error) :
    Prop where
  accepted : ∀ items s, make items = .ok s ↔ s.toList = items ∧ Distinct items
  refused : ∀ items e, make items = .error e ↔
    ∃ a, Keyed.FirstRepeat items a ∧ e = refusal (HasName.name a).text

theorem collects_ofList (refusal : String → Error) :
    Collects (fun items : List α =>
      (Keyed.ofList? items).mapError fun a => refusal (HasName.name a).text) refusal := by
  constructor
  · intro items s
    rw [← Keyed.ofList?_eq_ok_iff]
    refine ⟨of_mapError_ok, fun h => ?_⟩
    rw [h]
    rfl
  · intro items e
    constructor
    · intro h
      obtain ⟨a, ha, rfl⟩ := of_mapError_error h
      exact ⟨a, Keyed.ofList?_eq_error_iff.1 ha, rfl⟩
    · rintro ⟨a, ha, rfl⟩
      rw [Keyed.ofList?_eq_error_iff.2 ha]
      rfl

end

/-- In a document, the refusal is a fault of the document. -/
theorem collects_checked :
    Collects (fun attributes : List Attribute => Wire.checked (AttributeSet.of? attributes))
      fun n => .document (.invalid (.repeatedAttribute n)) := by
  have hchecked : (fun attributes => Wire.checked (AttributeSet.of? attributes)) =
      fun attributes => (Keyed.ofList? attributes).mapError fun a =>
        .document (.invalid (.repeatedAttribute (HasName.name a).text)) := by
    funext attributes
    rw [AttributeSet.of?]
    cases Keyed.ofList? attributes <;> rfl
  rw [hchecked]
  exact collects_ofList fun n => .document (.invalid (.repeatedAttribute n))

/-- A set is decoded exactly if its attributes are, and no name repeats among them. -/
theorem AttributeSet.ofDraft_eq_ok_iff {d : Draft} {s : AttributeSet} :
    AttributeSet.ofDraft d = .ok s ↔
      Wire.asList Attribute.ofDraft d = .ok s.toList ∧ Distinct s.toList := by
  show (Wire.asList Attribute.ofDraft d >>= fun as => Wire.checked (AttributeSet.of? as)) = _ ↔ _
  simp only [bind_eq_ok_iff, collects_checked.accepted]
  constructor
  · rintro ⟨as, has, rfl, hdistinct⟩
    exact ⟨has, hdistinct⟩
  · rintro ⟨has, hdistinct⟩
    exact ⟨s.toList, has, rfl, hdistinct⟩

/-- Otherwise it fails where an attribute fails, or else over the first to repeat a name. -/
theorem AttributeSet.ofDraft_eq_error_iff {d : Draft} {e : Error} :
    AttributeSet.ofDraft d = .error e ↔
      Wire.asList Attribute.ofDraft d = .error e ∨
        ∃ as, Wire.asList Attribute.ofDraft d = .ok as ∧ ∃ a, Keyed.FirstRepeat as a ∧
          e = .document (.invalid (.repeatedAttribute a.name.text)) := by
  show (Wire.asList Attribute.ofDraft d >>= fun as => Wire.checked (AttributeSet.of? as)) = _ ↔ _
  simp only [bind_eq_error_iff, collects_checked.refused]
  rfl

namespace DeltaSet

/-- A delta is added at the end if no other is for its attribute; if one is, the set stays. -/
theorem inserting_eq (d : Delta) (s : DeltaSet) :
    inserting d s =
      if s.contains d.name.text then
        ⟨.error (.invalidArgument (.repeatedDelta d.name.text)), s, []⟩
      else ⟨.ok (), ⟨s.toList ++ [d]⟩, []⟩ := by
  show (Action.ofExcept (s.add? d) >>= fun grown => Action.modify fun _ => grown) s = _
  rw [add?]
  split <;> rfl

/-- Adds deltas one after the other, up to the first that cannot be added. -/
def insertingAll : List Delta → Action DeltaSet Unit
  | [] => pure ()
  | d :: ds => do
    inserting d
    insertingAll ds

/-- What is at hand is the list so far, so the first delta to be refused is the first to repeat a
name. -/
theorem insertingAll_eq (ds : List Delta) (s : DeltaSet) :
    ((insertingAll ds s).result.map fun _ => (insertingAll ds s).state) =
      match Keyed.firstRepeat? s.toList ds with
      | some d => .error (.invalidArgument (.repeatedDelta d.name.text))
      | none => .ok ⟨s.toList ++ ds⟩ := by
  induction ds generalizing s with
  | nil =>
    rw [Keyed.firstRepeat?, List.append_nil]
    rfl
  | cons d ds ih =>
    have hany : s.toList.any (HasName.is · (HasName.name d).text) = s.contains d.name.text := by
      rw [Bool.eq_iff_iff, List.any_eq_true]
      simp only [HasName.is_name_iff]
      exact Keyed.contains_name_iff.symm
    have hinserting := inserting_eq d s
    rw [Keyed.firstRepeat?, hany, insertingAll]
    by_cases htaken : s.contains d.name.text = true
    · rw [if_pos htaken] at hinserting ⊢
      have hresult : (inserting d s).result = .error _ := congrArg Outcome.result hinserting
      rw [Action.bind_of_error hresult]
      rfl
    · rw [if_neg htaken] at hinserting ⊢
      have hresult : (inserting d s).result = .ok () := congrArg Outcome.result hinserting
      rw [Action.bind_of_ok hresult, hinserting]
      refine (ih ⟨s.toList ++ [d]⟩).trans ?_
      simp only [List.append_assoc, List.singleton_append]

/-- Making a set is adding deltas in place to the empty one. -/
theorem of?_eq_insertingAll (ds : List Delta) :
    of? ds = (insertingAll ds Keyed.empty).result.map fun _ =>
      (insertingAll ds Keyed.empty).state := by
  have hnone : (Keyed.empty : DeltaSet).toList = [] := rfl
  rw [insertingAll_eq, hnone, of?, Keyed.ofList?]
  cases Keyed.firstRepeat? [] ds <;> rfl

/-- A delta is refused exactly if its name is taken, and the set is left as it was. -/
theorem inserting_eq_error_iff {d : Delta} {s t : DeltaSet} {e : Error} :
    (inserting d s).result = .error e ∧ (inserting d s).state = t ↔
      (∃ b ∈ s.toList, HasName.key b = HasName.key d) ∧
        e = .invalidArgument (.repeatedDelta d.name.text) ∧ t = s := by
  rw [inserting_eq, ← Keyed.contains_name_iff]
  by_cases htaken : s.contains d.name.text = true
  · rw [if_pos htaken]
    constructor
    · rintro ⟨⟨⟩, rfl⟩
      exact ⟨htaken, rfl, rfl⟩
    · rintro ⟨-, rfl, rfl⟩
      exact ⟨rfl, rfl⟩
  · rw [if_neg htaken]
    exact ⟨nofun, fun h => absurd h.1 htaken⟩

end DeltaSet

/-- Lists of attributes and lists of deltas are taken as they are if no name repeats in them, and
else refused over the first item to repeat one, in its spelling. So it is with attributes that are
decoded, where the refusal is a fault of the document. A set of deltas is what adding them in place
one after the other leaves, and a delta that is refused leaves the set as it was. -/
theorem lists_collected :
    Collects AttributeSet.of? (fun n => .invalidArgument (.repeatedAttribute n)) ∧
    (∀ d s, AttributeSet.ofDraft d = .ok s ↔
      Wire.asList Attribute.ofDraft d = .ok s.toList ∧ Distinct s.toList) ∧
    (∀ d e, AttributeSet.ofDraft d = .error e ↔
      Wire.asList Attribute.ofDraft d = .error e ∨
        ∃ as, Wire.asList Attribute.ofDraft d = .ok as ∧ ∃ a, Keyed.FirstRepeat as a ∧
          e = .document (.invalid (.repeatedAttribute a.name.text))) ∧
    Collects DeltaSet.of? (fun n => .invalidArgument (.repeatedDelta n)) ∧
    (∀ ds, DeltaSet.of? ds = (DeltaSet.insertingAll ds Keyed.empty).result.map fun _ =>
      (DeltaSet.insertingAll ds Keyed.empty).state) ∧
    (∀ d s t e,
      (DeltaSet.inserting d s).result = .error e ∧ (DeltaSet.inserting d s).state = t ↔
        (∃ b ∈ s.toList, HasName.key b = HasName.key d) ∧
          e = .invalidArgument (.repeatedDelta d.name.text) ∧ t = s) ∧
    ∀ n, (Fault.repeatedAttribute n).message = "Duplicated named attributes: " ++ n ∧
      (Fault.repeatedDelta n).message = "Attribute delta for '" ++ n ++ "' is already present" :=
  ⟨collects_ofList fun n => .invalidArgument (.repeatedAttribute n),
    fun _ _ => AttributeSet.ofDraft_eq_ok_iff, fun _ _ => AttributeSet.ofDraft_eq_error_iff,
    collects_ofList fun n => .invalidArgument (.repeatedDelta n), DeltaSet.of?_eq_insertingAll,
    fun _ _ _ _ => DeltaSet.inserting_eq_error_iff, fun _ => ⟨rfl, rfl⟩⟩

/-- The first to repeat a name is reported, not the first whose name is repeated. -/
example :
    AttributeSet.of? [⟨⟨"sn", by decide⟩, []⟩, ⟨⟨"cn", by decide⟩, []⟩, ⟨⟨"CN", by decide⟩, []⟩,
      ⟨⟨"SN", by decide⟩, []⟩] = .error (.invalidArgument (.repeatedAttribute "CN")) := rfl

end Provisioning
