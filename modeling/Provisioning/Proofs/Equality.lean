import Mathlib.Data.List.Forall2
import Mathlib.Data.List.Perm.Subperm
import Provisioning.Proofs.WellFormed

/-!
# Equality of values

A NaN equals nothing, so equality of values is reflexive only where there is none. Where no name
repeats it is symmetric and transitive, and two sets of attributes are equal exactly if every name
finds nothing in both or equal attributes (`AttributeSet.alike_iff`), whatever the order and the
spelling of names.
-/
namespace Provisioning

/-- Related look-ups find nothing, or related items. -/
theorem rel_cases {α β : Type} {r : α → β → Prop} {x : Option α} {y : Option β}
    (h : Option.Rel r x y) :
    (x = none ∧ y = none) ∨ ∃ a b, x = some a ∧ y = some b ∧ r a b := by
  cases h with
  | none => exact .inl ⟨rfl, rfl⟩
  | some hab => exact .inr ⟨_, _, rfl, rfl, hab⟩

/-- Lists that are related item by item are so by whatever holds of the related items. -/
theorem forall₂_of_mem {α β : Type} {r r' : α → β → Prop} {as : List α} {bs : List β}
    (h : List.Forall₂ r as bs) (hr : ∀ a ∈ as, ∀ b ∈ bs, r a b → r' a b) :
    List.Forall₂ r' as bs := by
  induction h with
  | nil => exact .nil
  | cons hab _ ih =>
    have hhead := hr _ List.mem_cons_self _ List.mem_cons_self hab
    have htail := ih fun a ha b hb => hr a (List.mem_cons_of_mem _ ha) b (List.mem_cons_of_mem _ hb)
    exact .cons hhead htail

namespace Keyed

variable {α : Type} [HasName α] {r : α → α → Prop} {s t : Keyed α}

theorem nodup_keys_iff {items : List α} : (items.map HasName.key).Nodup ↔ Distinct items :=
  List.pairwise_map

/-- Equal size, and for each item on the left one on the right that its name finds and to which it
is related. -/
structure Matches (r : α → α → Prop) (s t : Keyed α) : Prop where
  size : s.size = t.size
  found : ∀ a ∈ s.toList, ∃ b, t.get? (HasName.name a).text = some b ∧ r a b

/-- As many keys on the left as on the right, and all of them on the right. -/
theorem Matches.keys_perm (h : Matches r s t) (hs : Distinct s.toList) :
    (s.toList.map HasName.key).Perm (t.toList.map HasName.key) := by
  have hsub : s.toList.map HasName.key ⊆ t.toList.map HasName.key := by
    intro k hk
    obtain ⟨a, ha, rfl⟩ := List.mem_map.1 hk
    obtain ⟨b, hb, -⟩ := h.found a ha
    exact List.mem_map.2 ⟨b, mem_of_find? hb, key_of_find? hb⟩
  have hlength : (t.toList.map HasName.key).length ≤ (s.toList.map HasName.key).length := by
    have hsize : s.toList.length = t.toList.length := h.size
    simp [hsize]
  exact (List.subperm_of_subset (nodup_keys_iff.2 hs) hsub).perm_of_length_le hlength

/-- Every name finds nothing on both sides, or related items. -/
theorem Matches.rel_get? (h : Matches r s t) (hs : Distinct s.toList) (n : String) :
    Option.Rel r (s.get? n) (t.get? n) := by
  cases ha : s.get? n with
  | some a =>
    obtain ⟨b, hb, hab⟩ := h.found a (mem_of_find? ha)
    rw [← get?_name t ha, hb]
    exact .some hab
  | none =>
    have hnone : t.get? n = none := by
      rw [← Option.not_isSome_iff_eq_none]
      intro hsome
      have hkey := (h.keys_perm hs).mem_iff.2 (mem_keys_iff.2 hsome)
      have hsome' : (s.get? n).isSome = true := mem_keys_iff.1 hkey
      rw [ha] at hsome'
      cases hsome'
    rw [hnone]
    exact .none

theorem matches_of_rel_get? (hs : Distinct s.toList) (ht : Distinct t.toList)
    (h : ∀ n, Option.Rel r (s.get? n) (t.get? n)) : Matches r s t := by
  have hsome (n : String) : (s.get? n).isSome = (t.get? n).isSome := by
    obtain ⟨hx, hy⟩ | ⟨a, b, hx, hy, -⟩ := rel_cases (h n) <;> simp [hx, hy]
  have hperm : (s.toList.map HasName.key).Perm (t.toList.map HasName.key) := by
    refine (List.perm_ext_iff_of_nodup (nodup_keys_iff.2 hs) (nodup_keys_iff.2 ht)).2 fun k => ?_
    constructor
    · intro hk
      obtain ⟨a, ha, rfl⟩ := List.mem_map.1 hk
      exact mem_keys_iff.2 (hsome _ ▸ mem_keys_iff.1 hk)
    · intro hk
      obtain ⟨b, hb, rfl⟩ := List.mem_map.1 hk
      exact mem_keys_iff.2 (hsome _ ▸ mem_keys_iff.1 hk)
  refine ⟨by simpa [Keyed.size] using hperm.length_eq, fun a ha => ?_⟩
  have hfind : s.get? (HasName.name a).text = some a := find?_name hs ha
  obtain ⟨hnone, -⟩ | ⟨a', b, ha', hb, hab⟩ := rel_cases (h (HasName.name a).text)
  · rw [hfind] at hnone
    cases hnone
  · rw [hfind] at ha'
    cases ha'
    exact ⟨b, hb, hab⟩

/-- A relation that can be turned round item by item can be turned round for sets. -/
theorem Matches.symm {r' : α → α → Prop} (h : Matches r s t) (hs : Distinct s.toList)
    (ht : Distinct t.toList) (hr : ∀ a ∈ s.toList, ∀ b ∈ t.toList, r a b → r' b a) :
    Matches r' t s := by
  refine matches_of_rel_get? ht hs fun n => ?_
  obtain ⟨ha, hb⟩ | ⟨a, b, ha, hb, hab⟩ := rel_cases (h.rel_get? hs n)
  · rw [ha, hb]
    exact .none
  · rw [ha, hb]
    exact .some (hr a (mem_of_find? ha) b (mem_of_find? hb) hab)

theorem Matches.trans {u : Keyed α} (h : Matches r s t) (h' : Matches r t u)
    (hr : ∀ a ∈ s.toList, ∀ b c, r a b → r b c → r a c) : Matches r s u := by
  refine ⟨h.size.trans h'.size, fun a ha => ?_⟩
  obtain ⟨b, hb, hab⟩ := h.found a ha
  obtain ⟨c, hc, hbc⟩ := h'.found b (mem_of_find? hb)
  rw [get?_name u hb] at hc
  exact ⟨c, hc, hr a ha b c hab hbc⟩

end Keyed

theorem list_beq_iff {α : Type} [BEq α] {as bs : List α} :
    (as == bs) = true ↔ List.Forall₂ (fun a b => (a == b) = true) as bs := by
  induction as generalizing bs with
  | nil => cases bs <;> simp
  | cons a as ih => cases bs <;> simp [ih]

theorem valuesBeq_iff {vs ws : List Value} :
    valuesBeq vs ws = true ↔ List.Forall₂ (fun v w => (v == w) = true) vs ws := by
  induction vs generalizing ws with
  | nil => cases ws <;> simp [valuesBeq]
  | cons v vs ih =>
    cases ws with
    | nil => simp [valuesBeq]
    | cons w ws =>
      rw [valuesBeq, Bool.and_eq_true, ih, List.forall₂_cons]
      rfl

theorem Attribute.beq_iff {a b : Attribute} :
    (a == b) = true ↔ HasName.key a = HasName.key b ∧
      List.Forall₂ (fun v w => (v == w) = true) a.values b.values := by
  obtain ⟨n, vs⟩ := a
  show Attribute.beq ⟨n, vs⟩ b = true ↔ _
  rw [Attribute.beq, Bool.and_eq_true, valuesBeq_iff]
  exact and_congr_left fun _ => HasName.is_name_iff (⟨n, vs⟩ : Attribute) b

theorem attributesIn_iff {as : List Attribute} {s : AttributeSet} :
    attributesIn as s = true ↔
      ∀ a ∈ as, ∃ b, s.get? a.name.text = some b ∧ (a == b) = true := by
  induction as with
  | nil => simp [attributesIn]
  | cons a as ih =>
    rw [attributesIn, Bool.and_eq_true, ih, List.forall_mem_cons]
    refine and_congr_left fun _ => ?_
    cases s.get? a.name.text with
    | none => simp
    | some b =>
      simp only [Option.some.injEq, exists_eq_left']
      rfl

theorem AttributeSet.beq_iff {s t : AttributeSet} :
    (s == t) = true ↔ Keyed.Matches (fun a b => (a == b) = true) s t := by
  show (s.size == t.size && attributesIn s.toList t) = true ↔ _
  rw [Bool.and_eq_true, beq_iff_eq, attributesIn_iff]
  exact ⟨fun h => ⟨h.1, h.2⟩, fun h => ⟨h.size, h.found⟩⟩

/-- The ways in which two values are equal. -/
inductive Value.Equal : Value → Value → Prop where
  | string (s : String) : Equal (.string s) (.string s)
  | integer (i : Int64) : Equal (.integer i) (.integer i)
  | double {x y : Binary64} (h : (x == y) = true) : Equal (.double x) (.double y)
  | boolean (b : Bool) : Equal (.boolean b) (.boolean b)
  | binary (bytes : List UInt8) : Equal (.binary bytes) (.binary bytes)
  | dateTime (t : Instant) : Equal (.dateTime t) (.dateTime t)
  | embedded {mark mark' : Option Nat} {c d : ObjectClass} {s t : AttributeSet}
    (hclass : (c == d) = true) (hset : (s == t) = true) :
    Equal (.embedded mark ⟨c, s⟩) (.embedded mark' ⟨d, t⟩)

theorem Value.beq_iff {v w : Value} : (v == w) = true ↔ v.Equal w := by
  have hbeq : (v == w) = Value.beq v w := rfl
  rw [hbeq]
  constructor
  · intro h
    cases v <;> cases w <;> simp only [Value.beq, beq_iff_eq, Bool.false_eq_true] at h
    case double x y => exact .double h
    case embedded mark o mark' p =>
      obtain ⟨c, ⟨as⟩⟩ := o
      obtain ⟨d, bs⟩ := p
      rw [EmbeddedObject.beq, Bool.and_eq_true] at h
      exact .embedded h.1 h.2
    all_goals
      subst h
      constructor
  · intro h
    cases h with
    | double h =>
      rw [Value.beq]
      exact h
    | @embedded _ _ _ _ s _ hclass hset =>
      obtain ⟨as⟩ := s
      rw [Value.beq, EmbeddedObject.beq, Bool.and_eq_true]
      exact ⟨hclass, hset⟩
    | _ => simp only [Value.beq, beq_self_eq_true]

instance : PartialEquivBEq Binary64 := ⟨Binary64.beq_symm, Binary64.beq_trans⟩

instance : PartialEquivBEq ObjectClass where
  symm h := (ObjectClass.beq_iff _ _).2 ((ObjectClass.beq_iff _ _).1 h).symm
  trans h h' :=
    (ObjectClass.beq_iff _ _).2
      (((ObjectClass.beq_iff _ _).1 h).trans ((ObjectClass.beq_iff _ _).1 h'))

mutual

theorem Value.beq_symm (v w : Value) (hv : v.meets .wellFormed = true)
    (hw : w.meets .wellFormed = true) (h : (v == w) = true) : (w == v) = true := by
  match v with
  | .embedded _ ⟨_, ⟨as⟩⟩ =>
    cases Value.beq_iff.1 h with
    | embedded hclass hset =>
      rw [meets_embedded] at hv hw
      obtain ⟨hdistinct, hmeet⟩ := AttributeSet.wellFormed_iff.1 hv
      obtain ⟨hdistinct', hmeet'⟩ := AttributeSet.wellFormed_iff.1 hw
      -- every attribute on the right is found on the left because the names are counted
      have hmatches := (AttributeSet.beq_iff.1 hset).symm hdistinct hdistinct' fun a ha b hb =>
        Attribute.beq_symm_of_mem as a ha b (hmeet a ha) (hmeet' b hb)
      exact Value.beq_iff.2 (.embedded (BEq.symm hclass) (AttributeSet.beq_iff.2 hmatches))
  | .double _ =>
    cases Value.beq_iff.1 h with
    | double hxy => exact Value.beq_iff.2 (.double (BEq.symm hxy))
  | .string _ | .integer _ | .boolean _ | .binary _ | .dateTime _ =>
    cases Value.beq_iff.1 h
    exact h

theorem Value.beq_symm_values (vs ws : List Value) (hv : valuesMeet .wellFormed vs = true)
    (hw : valuesMeet .wellFormed ws = true) (h : List.Forall₂ (fun v w => (v == w) = true) vs ws) :
    List.Forall₂ (fun v w => (v == w) = true) ws vs := by
  match vs with
  | [] =>
    cases h
    exact .nil
  | v :: vs =>
    obtain ⟨⟩ | ⟨hhead, htail⟩ := h
    rw [valuesMeet, Bool.and_eq_true] at hv hw
    exact .cons (Value.beq_symm v _ hv.1 hw.1 hhead)
      (Value.beq_symm_values vs _ hv.2 hw.2 htail)

theorem Attribute.beq_symm_of_mem (as : List Attribute) (a : Attribute) (ha : a ∈ as)
    (b : Attribute) (hav : a.meets .wellFormed = true) (hbv : b.meets .wellFormed = true)
    (h : (a == b) = true) : (b == a) = true := by
  match as with
  | [] => cases ha
  | ⟨n, vs⟩ :: as =>
    rcases List.mem_cons.1 ha with rfl | ha
    · obtain ⟨hkey, hvalues⟩ := Attribute.beq_iff.1 h
      rw [Attribute.meets_iff, ← valuesMeet_iff] at hav hbv
      exact Attribute.beq_iff.2 ⟨hkey.symm, Value.beq_symm_values vs _ hav hbv hvalues⟩
    · exact Attribute.beq_symm_of_mem as a ha b hav hbv h

end

mutual

theorem Value.beq_trans (v w x : Value) (h : (v == w) = true) (h' : (w == x) = true) :
    (v == x) = true := by
  match v with
  | .embedded _ ⟨_, ⟨as⟩⟩ =>
    cases Value.beq_iff.1 h with
    | embedded hclass hset =>
      cases Value.beq_iff.1 h' with
      | embedded hclass' hset' =>
        have hmatches := (AttributeSet.beq_iff.1 hset).trans (AttributeSet.beq_iff.1 hset')
          (Attribute.beq_trans_of_mem as)
        exact Value.beq_iff.2
          (.embedded (BEq.trans hclass hclass') (AttributeSet.beq_iff.2 hmatches))
  | .double _ =>
    cases Value.beq_iff.1 h with
    | double hxy =>
      cases Value.beq_iff.1 h' with
      | double hyz => exact Value.beq_iff.2 (.double (BEq.trans hxy hyz))
  | .string _ | .integer _ | .boolean _ | .binary _ | .dateTime _ =>
    cases Value.beq_iff.1 h
    exact h'

theorem Value.beq_trans_values (vs ws xs : List Value)
    (h : List.Forall₂ (fun v w => (v == w) = true) vs ws)
    (h' : List.Forall₂ (fun v w => (v == w) = true) ws xs) :
    List.Forall₂ (fun v w => (v == w) = true) vs xs := by
  match vs with
  | [] =>
    cases h
    exact h'
  | v :: vs =>
    obtain ⟨⟩ | ⟨hhead, htail⟩ := h
    obtain ⟨⟩ | ⟨hhead', htail'⟩ := h'
    exact .cons (Value.beq_trans v _ _ hhead hhead') (Value.beq_trans_values vs _ _ htail htail')

theorem Attribute.beq_trans_of_mem (as : List Attribute) (a : Attribute) (ha : a ∈ as)
    (b c : Attribute) (h : (a == b) = true) (h' : (b == c) = true) : (a == c) = true := by
  match as with
  | [] => cases ha
  | ⟨n, vs⟩ :: as =>
    rcases List.mem_cons.1 ha with rfl | ha
    · obtain ⟨hkey, hvalues⟩ := Attribute.beq_iff.1 h
      obtain ⟨hkey', hvalues'⟩ := Attribute.beq_iff.1 h'
      exact Attribute.beq_iff.2
        ⟨hkey.trans hkey', Value.beq_trans_values vs _ _ hvalues hvalues'⟩
    · exact Attribute.beq_trans_of_mem as a ha b c h h'

end

section

variable {c : Condition}

mutual

/-- A value is equal to itself if every double in it is. -/
theorem Value.beq_self (hc : ∀ d, c.double d = true → (d == d) = true) (v : Value)
    (hv : v.meets c = true) (hwell : v.meets .wellFormed = true) : (v == v) = true := by
  match v with
  | .embedded _ ⟨cls, ⟨as⟩⟩ =>
    rw [meets_embedded] at hv hwell
    obtain ⟨-, hmeet⟩ := AttributeSet.meets_iff.1 hv
    obtain ⟨hdistinct, hmeetWell⟩ := AttributeSet.wellFormed_iff.1 hwell
    refine Value.beq_iff.2 (.embedded ((ObjectClass.beq_iff _ _).2 rfl) ?_)
    refine AttributeSet.beq_iff.2 ⟨rfl, fun a ha => ⟨a, Keyed.find?_name hdistinct ha, ?_⟩⟩
    exact Attribute.beq_self_of_mem hc as a ha (hmeet a ha) (hmeetWell a ha)
  | .double d =>
    rw [Value.meets] at hv
    exact Value.beq_iff.2 (.double (hc d hv))
  | .string _ | .integer _ | .boolean _ | .binary _ | .dateTime _ =>
    exact Value.beq_iff.2 (by constructor)

theorem Value.beq_self_values (hc : ∀ d, c.double d = true → (d == d) = true) (vs : List Value)
    (hvs : valuesMeet c vs = true) (hwell : valuesMeet .wellFormed vs = true) :
    List.Forall₂ (fun v w => (v == w) = true) vs vs := by
  match vs with
  | [] => exact .nil
  | v :: vs =>
    rw [valuesMeet, Bool.and_eq_true] at hvs hwell
    exact .cons (Value.beq_self hc v hvs.1 hwell.1) (Value.beq_self_values hc vs hvs.2 hwell.2)

theorem Attribute.beq_self_of_mem (hc : ∀ d, c.double d = true → (d == d) = true)
    (as : List Attribute) (a : Attribute) (ha : a ∈ as) (hav : a.meets c = true)
    (hwell : a.meets .wellFormed = true) : (a == a) = true := by
  match as with
  | [] => cases ha
  | ⟨n, vs⟩ :: as =>
    rcases List.mem_cons.1 ha with rfl | ha
    · rw [Attribute.meets_iff, ← valuesMeet_iff] at hav hwell
      exact Attribute.beq_iff.2 ⟨rfl, Value.beq_self_values hc vs hav hwell⟩
    · exact Attribute.beq_self_of_mem hc as a ha hav hwell

end

end

/-- Equal values in which no name repeats. -/
structure Value.Alike (v w : Value) : Prop where
  left : v.meets .wellFormed = true
  right : w.meets .wellFormed = true
  equal : (v == w) = true

/-- Equal attributes in which no name repeats. -/
structure Attribute.Alike (a b : Attribute) : Prop where
  left : a.meets .wellFormed = true
  right : b.meets .wellFormed = true
  equal : (a == b) = true

/-- Equal sets in which no name repeats at any depth. -/
structure AttributeSet.Alike (s t : AttributeSet) : Prop where
  left : s.meets .wellFormed = true
  right : t.meets .wellFormed = true
  equal : (s == t) = true

theorem Value.Alike.symm {v w : Value} (h : v.Alike w) : w.Alike v :=
  ⟨h.right, h.left, Value.beq_symm v w h.left h.right h.equal⟩

theorem Value.alike_embedded_iff {mark mark' : Option Nat} {c d : ObjectClass}
    {s t : AttributeSet} :
    Value.Alike (.embedded mark ⟨c, s⟩) (.embedded mark' ⟨d, t⟩) ↔
      (c == d) = true ∧ s.Alike t := by
  constructor
  · intro h
    cases Value.beq_iff.1 h.equal with
    | embedded hclass hset =>
      exact ⟨hclass, meets_embedded.symm.trans h.left, meets_embedded.symm.trans h.right, hset⟩
  · rintro ⟨hclass, hset⟩
    exact ⟨meets_embedded.trans hset.left, meets_embedded.trans hset.right,
      Value.beq_iff.2 (.embedded hclass hset.equal)⟩

/-- Equal values are equal to the same values. -/
theorem Value.Alike.beq_congr {v w : Value} (h : v.Alike w) (x : Value) : (v == x) = (w == x) := by
  rw [Bool.eq_iff_iff]
  constructor
  · exact Value.beq_trans w v x h.symm.equal
  · exact Value.beq_trans v w x h.equal

theorem forall₂_alike_iff {vs ws : List Value} :
    List.Forall₂ Value.Alike vs ws ↔
      valuesMeet .wellFormed vs = true ∧ valuesMeet .wellFormed ws = true ∧
        List.Forall₂ (fun v w => (v == w) = true) vs ws := by
  constructor
  · intro h
    induction h with
    | nil => exact ⟨rfl, rfl, .nil⟩
    | cons hhead _ ih =>
      obtain ⟨hvs, hws, hequal⟩ := ih
      simp only [valuesMeet, Bool.and_eq_true]
      exact ⟨⟨hhead.left, hvs⟩, ⟨hhead.right, hws⟩, .cons hhead.equal hequal⟩
  · rintro ⟨hvs, hws, hequal⟩
    rw [valuesMeet_iff] at hvs hws
    exact forall₂_of_mem hequal fun v hv w hw hvw => ⟨hvs v hv, hws w hw, hvw⟩

theorem Attribute.alike_iff {a b : Attribute} :
    a.Alike b ↔ HasName.key a = HasName.key b ∧ List.Forall₂ Value.Alike a.values b.values := by
  constructor
  · intro h
    have ha := valuesMeet_iff.2 (Attribute.meets_iff.1 h.left)
    have hb := valuesMeet_iff.2 (Attribute.meets_iff.1 h.right)
    obtain ⟨hkey, hvalues⟩ := Attribute.beq_iff.1 h.equal
    exact ⟨hkey, forall₂_alike_iff.2 ⟨ha, hb, hvalues⟩⟩
  · rintro ⟨hkey, hvalues⟩
    obtain ⟨ha, hb, hequal⟩ := forall₂_alike_iff.1 hvalues
    exact ⟨Attribute.meets_iff.2 (valuesMeet_iff.1 ha), Attribute.meets_iff.2 (valuesMeet_iff.1 hb),
      Attribute.beq_iff.2 ⟨hkey, hequal⟩⟩

/-- Whether sets are equal is seen by looking names up. -/
theorem AttributeSet.alike_iff {s t : AttributeSet} :
    s.Alike t ↔ Keyed.Distinct s.toList ∧ Keyed.Distinct t.toList ∧
      ∀ n, Option.Rel Attribute.Alike (s.get? n) (t.get? n) := by
  constructor
  · intro h
    obtain ⟨hs, hmeet⟩ := AttributeSet.wellFormed_iff.1 h.left
    obtain ⟨ht, hmeet'⟩ := AttributeSet.wellFormed_iff.1 h.right
    refine ⟨hs, ht, fun n => ?_⟩
    have hmatches : Keyed.Matches Attribute.Alike s t := by
      refine ⟨(AttributeSet.beq_iff.1 h.equal).size, fun a ha => ?_⟩
      obtain ⟨b, hb, hab⟩ := (AttributeSet.beq_iff.1 h.equal).found a ha
      exact ⟨b, hb, hmeet a ha, hmeet' b (Keyed.mem_of_find? hb), hab⟩
    exact hmatches.rel_get? hs n
  · rintro ⟨hs, ht, hrel⟩
    have hmatches := Keyed.matches_of_rel_get? hs ht hrel
    have hmatches' : Keyed.Matches (fun b a => Attribute.Alike a b) t s :=
      hmatches.symm hs ht fun _ _ _ _ hab => hab
    refine ⟨AttributeSet.wellFormed_iff.2 ⟨hs, ?_⟩, AttributeSet.wellFormed_iff.2 ⟨ht, ?_⟩, ?_⟩
    · intro a ha
      obtain ⟨b, -, hab⟩ := hmatches.found a ha
      exact hab.left
    · intro b hb
      obtain ⟨a, -, hab⟩ := hmatches'.found b hb
      exact hab.right
    · refine AttributeSet.beq_iff.2 ⟨hmatches.size, fun a ha => ?_⟩
      obtain ⟨b, hb, hab⟩ := hmatches.found a ha
      exact ⟨b, hb, hab.equal⟩

end Provisioning
