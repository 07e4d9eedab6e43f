import Provisioning.Proofs.Congruence
import Provisioning.Proofs.WellFormed

/-!
# The laws of equality

Where no name repeats, equality of values and of edits is symmetric and transitive, and an item is
equal to itself exactly if there is no NaN in it. The laws are inherited from the parts of an item:
by lists item by item (`Lawful.list`), by collections keyed by name because both sides have the same
keys (`Lawful.keyed`), and by steps from the elements and deltas in them (`Op.lawful`). Equality
compares names in their folded form, and a hasher is fed just that, so what is equal is fed alike.
-/
namespace Provisioning

open Keyed (Distinct)

/-- The characters that an item feeds to a hasher: those of its name, each in lower case. -/
def HasName.fed {α : Type} [HasName α] (a : α) : List Char :=
  (HasName.name a).text.toList.flatMap Text.lowercase

theorem HasName.fed_congr {α : Type} [HasName α] {a b : α} (h : HasName.key a = HasName.key b) :
    HasName.fed a = HasName.fed b :=
  String.ofList_injective h

namespace Keyed

variable {α : Type} [HasName α] {r : α → α → Prop} {s t : Keyed α}

/-- Comparing from one side finds out whether both sides have the same names, with related items. -/
theorem matches_iff (hs : Distinct s.toList) (ht : Distinct t.toList) :
    Matches r s t ↔ (∀ n, s.contains n = t.contains n) ∧
      ∀ a ∈ s.toList, ∀ b ∈ t.toList, HasName.key a = HasName.key b → r a b := by
  constructor
  · intro h
    refine ⟨fun n => ?_, fun a ha b hb hkey => ?_⟩
    · rw [contains, contains]
      rcases rel_cases (h.rel_get? hs n) with ⟨hx, hy⟩ | ⟨a, b, hx, hy, -⟩
      · rw [hx, hy]
      · rw [hx, hy, Option.isSome_some, Option.isSome_some]
    · obtain ⟨b', hb', hab⟩ := h.found a ha
      have hself : t.get? (HasName.name a).text = some b :=
        (find?_congr hkey).trans (find?_name ht hb)
      rw [hself] at hb'
      cases hb'
      exact hab
  · rintro ⟨hnames, hitems⟩
    refine matches_of_rel_get? hs ht fun n => ?_
    have hsome := hnames n
    rw [contains, contains] at hsome
    cases ha : s.get? n with
    | none =>
      rw [ha] at hsome
      rw [Option.not_isSome_iff_eq_none.1 (Bool.eq_false_iff.1 hsome.symm)]
      exact .none
    | some a =>
      rw [ha] at hsome
      obtain ⟨b, hb⟩ := Option.isSome_iff_exists.1 hsome.symm
      rw [hb]
      exact .some (hitems a (mem_of_find? ha) b (mem_of_find? hb)
        ((key_of_find? ha).trans (key_of_find? hb).symm))

theorem matches_self_iff (hs : Distinct s.toList) :
    Matches r s s ↔ ∀ a ∈ s.toList, r a a := by
  constructor
  · intro h a ha
    obtain ⟨b, hb, hab⟩ := h.found a ha
    have hself : s.get? (HasName.name a).text = some a := find?_name hs ha
    rw [hself] at hb
    cases hb
    exact hab
  · exact fun h => ⟨rfl, fun a ha => ⟨a, find?_name hs ha, h a ha⟩⟩

end Keyed

/-- What a relation owes an item: it can be turned round and prolonged from there, and relates the
item to itself exactly if that is sound. -/
structure Lawful {α : Type} (r : α → α → Prop) (wellFormed sound : α → Prop) (a : α) : Prop where
  symm : ∀ b, wellFormed b → r a b → r b a
  trans : ∀ b c, r a b → r b c → r a c
  self : r a a ↔ sound a

namespace Lawful

variable {α β κ : Type} {r r' : α → α → Prop} {wellFormed sound wellFormed' sound' : α → Prop}

theorem of_iff {a : α} (h : Lawful r wellFormed sound a) (hr : ∀ a b, r' a b ↔ r a b)
    (hwell : ∀ a, wellFormed' a → wellFormed a) (hsound : ∀ a, sound' a ↔ sound a) :
    Lawful r' wellFormed' sound' a where
  symm b hb hab := (hr b a).2 (h.symm b (hwell b hb) ((hr a b).1 hab))
  trans b c hab hbc := (hr a c).2 (h.trans b c ((hr a b).1 hab) ((hr b c).1 hbc))
  self := (hr a a).trans (h.self.trans (hsound a).symm)

/-- What is compared by a key and by a part inherits the laws of the part. -/
theorem keyedPart {b : β} (key : β → κ) (part : β → α) (h : Lawful r wellFormed sound (part b)) :
    Lawful (fun b c => key b = key c ∧ r (part b) (part c)) (fun b => wellFormed (part b))
      (fun b => sound (part b)) b where
  symm c hc hbc := ⟨hbc.1.symm, h.symm (part c) hc hbc.2⟩
  trans c d hbc hcd := ⟨hbc.1.trans hcd.1, h.trans (part c) (part d) hbc.2 hcd.2⟩
  self := (and_iff_right rfl).trans h.self

theorem list {as : List α} (h : ∀ a ∈ as, Lawful r wellFormed sound a) :
    Lawful (List.Forall₂ r) (fun bs => ∀ b ∈ bs, wellFormed b)
      (fun bs => ∀ b ∈ bs, sound b) as := by
  refine ⟨fun bs hbs hr => ?_, fun bs cs hr hr' => ?_, ?_⟩
  · have hturned : List.Forall₂ (flip r) as bs :=
      forall₂_of_mem hr fun a ha b hb hab => (h a ha).symm b (hbs b hb) hab
    exact hturned.flip
  · induction hr generalizing cs with
    | nil => exact hr'
    | cons hab _ ih =>
      obtain ⟨⟩ | ⟨hbc, hrest⟩ := hr'
      have htail := ih (fun a ha => h a (List.mem_cons_of_mem _ ha)) _ hrest
      exact .cons ((h _ List.mem_cons_self).trans _ _ hab hbc) htail
  · exact List.forall₂_same.trans (forall₂_congr fun a ha => (h a ha).self)

theorem keyed [HasName α] {s : Keyed α} (hs : Distinct s.toList)
    (h : ∀ a ∈ s.toList, Lawful r wellFormed sound a) :
    Lawful (Keyed.Matches r) (fun t => Distinct t.toList ∧ ∀ b ∈ t.toList, wellFormed b)
      (fun t => ∀ b ∈ t.toList, sound b) s where
  symm _ ht hst := hst.symm hs ht.1 fun a ha b hb hab => (h a ha).symm b (ht.2 b hb) hab
  trans _ _ hst htu := hst.trans htu fun a ha b c => (h a ha).trans b c
  self := (Keyed.matches_self_iff hs).trans (forall₂_congr fun a ha => (h a ha).self)

end Lawful

/-- No double is a NaN. -/
def Condition.noNaN : Condition where
  double d := !d.isNaN
  time _ := true
  attributes _ := true
  denoted _ _ := rfl
  put _ _ _ := rfl
  sublist _ _ _ _ := rfl
  recast _ _ _ := rfl

theorem AttributeSet.meets_noNaN_iff {s : AttributeSet} :
    s.meets .noNaN = true ↔ ∀ a ∈ s.toList, a.meets .noNaN = true :=
  AttributeSet.meets_iff.trans (and_iff_right rfl)

theorem EmbeddedObject.meets_iff {c : Condition} {o : EmbeddedObject} :
    o.meets c = true ↔ AttributeSet.meets c o.attributes = true := by
  obtain ⟨cls, ⟨as⟩⟩ := o
  rw [EmbeddedObject.meets, AttributeSet.meets]

theorem EmbeddedObject.beq_iff {o p : EmbeddedObject} :
    (o == p) = true ↔ Text.fold o.objectClass.text = Text.fold p.objectClass.text ∧
      Keyed.Matches (fun a b => (a == b) = true) o.attributes p.attributes := by
  obtain ⟨c, ⟨as⟩⟩ := o
  obtain ⟨d, bs⟩ := p
  have hbeq : (EmbeddedObject.mk c ⟨as⟩ == ⟨d, bs⟩) = (c == d && AttributeSet.beq ⟨as⟩ bs) := by
    show EmbeddedObject.beq _ _ = _
    rw [EmbeddedObject.beq]
    rfl
  rw [hbeq, Bool.and_eq_true, ObjectClass.beq_iff]
  exact and_congr_right fun _ => AttributeSet.beq_iff

theorem Value.beq_embedded_iff {mark mark' : Option Nat} {o p : EmbeddedObject} :
    (Value.embedded mark o == .embedded mark' p) = true ↔ (o == p) = true := by
  show Value.beq _ _ = true ↔ _
  rw [Value.beq]
  rfl

mutual

/-- A value is equal to itself exactly if there is no NaN in it. -/
theorem Value.beq_self_iff (v : Value) (hwell : v.meets .wellFormed = true) :
    (v == v) = true ↔ v.meets .noNaN = true := by
  match v with
  | .embedded _ ⟨_, ⟨as⟩⟩ =>
    rw [meets_embedded] at hwell
    obtain ⟨hdistinct, hmeet⟩ := AttributeSet.wellFormed_iff.1 hwell
    rw [Value.beq_embedded_iff, EmbeddedObject.beq_iff, meets_embedded,
      AttributeSet.meets_noNaN_iff, and_iff_right rfl, Keyed.matches_self_iff hdistinct]
    exact forall₂_congr fun a ha => Attribute.beq_self_iff_of_mem as a ha (hmeet a ha)
  | .double d =>
    rw [Value.beq_iff, Value.meets]
    have hself : (d == d) = Condition.noNaN.double d := Binary64.beq_self d
    rw [← hself]
    exact ⟨fun h => by cases h; assumption, .double⟩
  | .string _ | .integer _ | .boolean _ | .binary _ | .dateTime _ =>
    exact iff_of_true (Value.beq_iff.2 (by constructor)) rfl

theorem Attribute.beq_self_iff_of_mem (as : List Attribute) (a : Attribute) (ha : a ∈ as)
    (hwell : a.meets .wellFormed = true) : (a == a) = true ↔ a.meets .noNaN = true := by
  match as with
  | [] => cases ha
  | ⟨n, vs⟩ :: as =>
    rcases List.mem_cons.1 ha with rfl | ha
    · rw [Attribute.meets_iff, ← valuesMeet_iff] at hwell ⊢
      rw [Attribute.beq_iff, and_iff_right rfl]
      exact valuesBeq_self_iff vs hwell
    · exact Attribute.beq_self_iff_of_mem as a ha hwell

theorem valuesBeq_self_iff (vs : List Value) (hwell : valuesMeet .wellFormed vs = true) :
    List.Forall₂ (fun v w => (v == w) = true) vs vs ↔ valuesMeet .noNaN vs = true := by
  match vs with
  | [] => exact iff_of_true .nil rfl
  | v :: vs =>
    rw [valuesMeet, Bool.and_eq_true] at hwell ⊢
    rw [List.forall₂_cons]
    exact and_congr (Value.beq_self_iff v hwell.1) (valuesBeq_self_iff vs hwell.2)

end

/-- The laws of equality for an item, with the conditions that its type puts on being well formed
and on having no NaN in it. -/
abbrev LawfulBeq {α : Type} [BEq α] (wellFormed noNaN : α → Bool) (a : α) : Prop :=
  Lawful (fun a b => (a == b) = true) (fun a => wellFormed a = true) (fun a => noNaN a = true) a

theorem Value.lawful (v : Value) (h : v.meets .wellFormed = true) :
    LawfulBeq (Value.meets .wellFormed) (Value.meets .noNaN) v :=
  ⟨fun w hw => Value.beq_symm v w h hw, Value.beq_trans v, Value.beq_self_iff v h⟩

theorem Value.lawful_list {vs : List Value} (h : valuesMeet .wellFormed vs = true) :
    Lawful (List.Forall₂ fun v w => (v == w) = true) (fun vs => valuesMeet .wellFormed vs = true)
      (fun vs => valuesMeet .noNaN vs = true) vs :=
  (Lawful.list fun v hv => Value.lawful v (valuesMeet_iff.1 h v hv)).of_iff (fun _ _ => Iff.rfl)
    (fun _ => valuesMeet_iff.1) fun _ => valuesMeet_iff

theorem Attribute.lawful (a : Attribute) (h : a.meets .wellFormed = true) :
    LawfulBeq (Attribute.meets .wellFormed) (Attribute.meets .noNaN) a := by
  have hmeets (c : Condition) (a : Attribute) :
      a.meets c = true ↔ valuesMeet c a.values = true :=
    Attribute.meets_iff.trans valuesMeet_iff.symm
  exact ((Value.lawful_list ((hmeets _ a).1 h)).keyedPart HasName.key Attribute.values).of_iff
    (fun _ _ => Attribute.beq_iff) (fun a => (hmeets _ a).1) (hmeets .noNaN)

theorem AttributeSet.lawful (s : AttributeSet) (h : s.meets .wellFormed = true) :
    LawfulBeq (AttributeSet.meets .wellFormed) (AttributeSet.meets .noNaN) s := by
  obtain ⟨hdistinct, hmeet⟩ := AttributeSet.wellFormed_iff.1 h
  exact (Lawful.keyed hdistinct fun a ha => Attribute.lawful a (hmeet a ha)).of_iff
    (fun _ _ => AttributeSet.beq_iff) (fun _ => AttributeSet.wellFormed_iff.1)
    fun _ => AttributeSet.meets_noNaN_iff

theorem EmbeddedObject.lawful (o : EmbeddedObject) (h : o.meets .wellFormed = true) :
    LawfulBeq (EmbeddedObject.meets .wellFormed) (EmbeddedObject.meets .noNaN) o := by
  have hset := AttributeSet.lawful o.attributes (EmbeddedObject.meets_iff.1 h)
  have hobject := hset.keyedPart (fun o : EmbeddedObject => Text.fold o.objectClass.text)
    EmbeddedObject.attributes
  refine hobject.of_iff (fun o p => ?_) (fun _ => EmbeddedObject.meets_iff.1)
    fun _ => EmbeddedObject.meets_iff
  exact EmbeddedObject.beq_iff.trans (and_congr_right fun _ => AttributeSet.beq_iff.symm)

theorem Delta.beq_iff {d e : Delta} : (d == e) = true ↔ d.Equal e := by
  refine ⟨Delta.equal_of_beq, fun h => ?_⟩
  show Delta.beq d e = true
  cases h with
  | complex hname hops =>
    rw [Delta.beq, Bool.and_eq_true]
    exact ⟨(Text.sameName_iff _ _).2 hname, valueOpsBeq_iff.2 hops⟩
  | replace hname hvalues =>
    rw [Delta.beq, Bool.and_eq_true]
    exact ⟨(Text.sameName_iff _ _).2 hname, list_beq_iff.2 hvalues⟩

theorem ValueOp.beq_iff {op op' : ValueOp} : (op == op') = true ↔ Op.Equal op op' := by
  refine ⟨ValueOp.equal_of_beq, fun h => ?_⟩
  show valueOpBeq op op' = true
  cases h with
  | add h =>
    rw [valueOpBeq]
    exact list_beq_iff.2 h
  | deleteAll =>
    rw [valueOpBeq]
    rfl
  | delete hsame =>
    rw [valueOpBeq]
    exact hsame
  | @merge f g s t hsame hset =>
    obtain ⟨ds⟩ := s
    rw [valueOpBeq, hsame]
    exact hset

theorem AttributeOp.beq_iff {op op' : AttributeOp} : (op == op') = true ↔ Op.Equal op op' := by
  refine ⟨AttributeOp.equal_of_beq, fun h => ?_⟩
  show attributeOpBeq op op' = true
  cases h with
  | add h => exact list_beq_iff.2 h
  | deleteAll => rfl
  | delete hsame => exact hsame
  | merge hsame hset =>
    rw [attributeOpBeq, hsame, hset]
    rfl

theorem Delta.key_eq_of_beq {d e : Delta} (h : (d == e) = true) :
    HasName.key d = HasName.key e := by
  cases Delta.equal_of_beq h with
  | complex hname _ => exact hname
  | replace hname _ => exact hname

/-- A delta of one kind is equal to none of the other. -/
theorem Delta.complex_ne_replace (n m : Name) (ops : List ValueOp) (vs : List Value) :
    (Delta.complex n ops == .replace m vs) = false ∧
      (Delta.replace m vs == .complex n ops) = false := by
  refine ⟨?_, ?_⟩ <;>
    exact Bool.eq_false_iff.2 fun h => nomatch Delta.equal_of_beq h

namespace Op

variable {α : Type}

/-- Whether the elements and the deltas in a step have given properties. -/
def Every (p : α → Prop) (q : DeltaSet → Prop) : Op α Delta → Prop
  | .add as => ∀ a ∈ as, p a
  | .delete _ => True
  | .merge _ ds => q ds

section

variable [BEq α] {wellFormed sound : α → Prop} {wellFormed' sound' : DeltaSet → Prop}

theorem lawful_add {as : List α}
    (h : ∀ a ∈ as, Lawful (fun a b => (a == b) = true) wellFormed sound a) :
    Lawful Op.Equal (Every wellFormed wellFormed') (Every sound sound') (.add as : Op α Delta) := by
  have hlist := Lawful.list h
  refine ⟨fun op hop heq => ?_, fun op op' heq heq' => ?_, fun heq => ?_, fun hsound => ?_⟩
  · cases heq with
    | add heq => exact .add (hlist.symm _ hop heq)
  · cases heq with
    | add heq =>
      cases heq' with
      | add heq' => exact .add (hlist.trans _ _ heq heq')
  · cases heq with
    | add heq => exact hlist.self.1 heq
  · exact .add (hlist.self.2 hsound)

/-- Filters are one instance or not. -/
theorem lawful_delete (f : Option (Filter α)) :
    Lawful Op.Equal (Every wellFormed wellFormed') (Every sound sound')
      (.delete f : Op α Delta) := by
  refine ⟨fun op _ heq => ?_, fun op op' heq heq' => ?_, iff_of_true ?_ trivial⟩
  · cases heq with
    | deleteAll => exact .deleteAll
    | delete hsame => exact .delete (BEq.symm (α := Nat) hsame)
  · cases heq with
    | deleteAll => exact heq'
    | delete hsame =>
      cases heq' with
      | delete hsame' => exact .delete (BEq.trans (α := Nat) hsame hsame')
  · cases f with
    | none => exact .deleteAll
    | some f => exact .delete (beq_self_eq_true f.id)

theorem lawful_merge (f : Filter α) {s : DeltaSet}
    (h : Lawful (fun s t => (s == t) = true) wellFormed' sound' s) :
    Lawful Op.Equal (Every wellFormed wellFormed') (Every sound sound') (.merge f s) := by
  refine ⟨fun op hop heq => ?_, fun op op' heq heq' => ?_, fun heq => ?_, fun hsound => ?_⟩
  · cases heq with
    | merge hsame hset => exact .merge (BEq.symm (α := Nat) hsame) (h.symm _ hop hset)
  · cases heq with
    | merge hsame hset =>
      cases heq' with
      | merge hsame' hset' =>
        exact .merge (BEq.trans (α := Nat) hsame hsame') (h.trans _ _ hset hset')
  · cases heq with
    | merge _ hset => exact h.self.1 hset
  · exact .merge (beq_self_eq_true f.id) (h.self.2 hsound)

/-- Steps inherit the laws of the elements and the deltas in them. -/
theorem lawful {op : Op α Delta}
    (h : op.Every (Lawful (fun a b => (a == b) = true) wellFormed sound)
      (Lawful (fun s t => (s == t) = true) wellFormed' sound')) :
    Lawful Op.Equal (Every wellFormed wellFormed') (Every sound sound') op := by
  cases op with
  | add as => exact lawful_add h
  | delete f => exact lawful_delete f
  | merge f s => exact lawful_merge f h

end

end Op

theorem ValueOp.wellFormed_iff {op : ValueOp} :
    opWellFormed op = true ↔
      op.Every (fun v => v.meets .wellFormed = true) fun s => s.wellFormed = true := by
  cases op with
  | add vs =>
    rw [opWellFormed]
    exact valuesMeet_iff
  | delete f => exact iff_of_true (by rw [opWellFormed]) trivial
  | merge f s =>
    rw [opWellFormed_merge]
    exact Iff.rfl

theorem ValueOp.meets_iff {c : Condition} {op : ValueOp} :
    opMeets c op = true ↔
      op.Every (fun v => v.meets c = true) fun s => deltasMeet c s.toList = true := by
  cases op with
  | add vs =>
    rw [opMeets]
    exact valuesMeet_iff
  | delete f => exact iff_of_true (by rw [opMeets]) trivial
  | merge f s =>
    obtain ⟨ds⟩ := s
    rw [opMeets]
    exact Iff.rfl

theorem DeltaSet.lawful_of_forall {s : DeltaSet} (h : s.wellFormed = true)
    (hdeltas : ∀ d ∈ s.toList, LawfulBeq Delta.wellFormed (Delta.meets .noNaN) d) :
    LawfulBeq DeltaSet.wellFormed (fun s => deltasMeet .noNaN s.toList) s :=
  (Lawful.keyed (DeltaSet.wellFormed_iff.1 h).1 hdeltas).of_iff (fun _ _ => DeltaSet.beq_iff)
    (fun _ => DeltaSet.wellFormed_iff.1) fun _ => deltasMeet_iff

theorem Delta.lawful_replace (n : Name) {vs : List Value} (h : valuesMeet .wellFormed vs = true) :
    LawfulBeq Delta.wellFormed (Delta.meets .noNaN) (.replace n vs) := by
  have hlist := Value.lawful_list h
  refine ⟨fun e he heq => ?_, fun e e' heq heq' => ?_, fun heq => ?_, fun hsound => ?_⟩
  · cases Delta.beq_iff.1 heq with
    | replace hname hvalues =>
      rw [Delta.wellFormed] at he
      exact Delta.beq_iff.2 (.replace hname.symm (hlist.symm _ he hvalues))
  · cases Delta.beq_iff.1 heq with
    | replace hname hvalues =>
      cases Delta.beq_iff.1 heq' with
      | replace hname' hvalues' =>
        exact Delta.beq_iff.2 (.replace (hname.trans hname') (hlist.trans _ _ hvalues hvalues'))
  · cases Delta.beq_iff.1 heq with
    | replace _ hvalues =>
      rw [Delta.meets]
      exact hlist.self.1 hvalues
  · rw [Delta.meets] at hsound
    exact Delta.beq_iff.2 (.replace rfl (hlist.self.2 hsound))

theorem Delta.lawful_complex (n : Name) {ops : List ValueOp}
    (h : ∀ op ∈ ops, LawfulBeq opWellFormed (opMeets .noNaN) op) :
    LawfulBeq Delta.wellFormed (Delta.meets .noNaN) (.complex n ops) := by
  have hlist := Lawful.list h
  refine ⟨fun e he heq => ?_, fun e e' heq heq' => ?_, fun heq => ?_, fun hsound => ?_⟩
  · cases Delta.beq_iff.1 heq with
    | complex hname hops =>
      rw [Delta.wellFormed, opsWellFormed_iff] at he
      exact Delta.beq_iff.2 (.complex hname.symm (hlist.symm _ he hops))
  · cases Delta.beq_iff.1 heq with
    | complex hname hops =>
      cases Delta.beq_iff.1 heq' with
      | complex hname' hops' =>
        exact Delta.beq_iff.2 (.complex (hname.trans hname') (hlist.trans _ _ hops hops'))
  · cases Delta.beq_iff.1 heq with
    | complex _ hops =>
      rw [Delta.meets, opsMeet_iff]
      exact hlist.self.1 hops
  · rw [Delta.meets, opsMeet_iff] at hsound
    exact Delta.beq_iff.2 (.complex rfl (hlist.self.2 hsound))

mutual

theorem Delta.lawful (d : Delta) (h : d.wellFormed = true) :
    LawfulBeq Delta.wellFormed (Delta.meets .noNaN) d := by
  match d with
  | .complex n ops =>
    rw [Delta.wellFormed] at h
    exact Delta.lawful_complex n (ValueOp.lawful_of_ops ops h)
  | .replace n vs =>
    rw [Delta.wellFormed] at h
    exact Delta.lawful_replace n h

theorem ValueOp.lawful (op : ValueOp) (h : opWellFormed op = true) :
    LawfulBeq opWellFormed (opMeets .noNaN) op := by
  refine Lawful.of_iff (Op.lawful ?_) (fun _ _ => ValueOp.beq_iff)
    (fun _ => ValueOp.wellFormed_iff.1) fun _ => ValueOp.meets_iff
  match op with
  | .add vs =>
    rw [opWellFormed, valuesMeet_iff] at h
    exact fun v hv => Value.lawful v (h v hv)
  | .delete _ => exact trivial
  | .merge _ ⟨ds⟩ =>
    rw [opWellFormed, Bool.and_eq_true] at h
    have hset : DeltaSet.wellFormed ⟨ds⟩ = true := by rwa [DeltaSet.wellFormed, Bool.and_eq_true]
    exact DeltaSet.lawful_of_forall hset (Delta.lawful_of_deltas ds h.2)

theorem ValueOp.lawful_of_ops (ops : List ValueOp) (h : opsWellFormed ops = true) :
    ∀ op ∈ ops, LawfulBeq opWellFormed (opMeets .noNaN) op := by
  match ops with
  | [] => exact fun _ hop => nomatch hop
  | op :: ops =>
    rw [opsWellFormed, Bool.and_eq_true] at h
    exact List.forall_mem_cons.2 ⟨ValueOp.lawful op h.1, ValueOp.lawful_of_ops ops h.2⟩

theorem Delta.lawful_of_deltas (ds : List Delta) (h : deltasWellFormed ds = true) :
    ∀ d ∈ ds, LawfulBeq Delta.wellFormed (Delta.meets .noNaN) d := by
  match ds with
  | [] => exact fun _ hd => nomatch hd
  | d :: ds =>
    rw [deltasWellFormed, Bool.and_eq_true] at h
    exact List.forall_mem_cons.2 ⟨Delta.lawful d h.1, Delta.lawful_of_deltas ds h.2⟩

end

theorem DeltaSet.lawful (s : DeltaSet) (h : s.wellFormed = true) :
    LawfulBeq DeltaSet.wellFormed (fun s => deltasMeet .noNaN s.toList) s :=
  DeltaSet.lawful_of_forall h fun d hd => Delta.lawful d ((DeltaSet.wellFormed_iff.1 h).2 d hd)

theorem AttributeOp.wellFormed_iff {op : AttributeOp} :
    AttributeOp.wellFormed op = true ↔
      op.Every (fun a => a.meets .wellFormed = true) fun s => s.wellFormed = true := by
  cases op with
  | add as => exact attributesMeet_iff
  | delete f => exact iff_of_true rfl trivial
  | merge f s => exact Iff.rfl

theorem AttributeOp.meets_iff {c : Condition} {op : AttributeOp} :
    attributeOpMeets c op = true ↔
      op.Every (fun a => a.meets c = true) fun s => deltasMeet c s.toList = true := by
  cases op with
  | add as => exact attributesMeet_iff
  | delete f => exact iff_of_true rfl trivial
  | merge f s => exact Iff.rfl

theorem AttributeOp.lawful (op : AttributeOp) (h : AttributeOp.wellFormed op = true) :
    LawfulBeq AttributeOp.wellFormed (attributeOpMeets .noNaN) op := by
  refine Lawful.of_iff (Op.lawful ?_) (fun _ _ => AttributeOp.beq_iff)
    (fun _ => AttributeOp.wellFormed_iff.1) fun _ => AttributeOp.meets_iff
  rw [AttributeOp.wellFormed_iff] at h
  cases op with
  | add as => exact fun a ha => Attribute.lawful a (h a ha)
  | delete f => exact trivial
  | merge f s => exact DeltaSet.lawful s h

/-- Equality of the well-formed items of a type can be turned round and prolonged, and holds of an
item and itself exactly if there is no NaN in it. -/
structure PartialEquivalence {α : Type} [BEq α] (wellFormed noNaN : α → Bool) : Prop where
  symm : ∀ a b, wellFormed a = true → wellFormed b = true → (a == b) = true → (b == a) = true
  trans : ∀ a b c, wellFormed a = true → wellFormed b = true → wellFormed c = true →
    (a == b) = true → (b == c) = true → (a == c) = true
  self_iff : ∀ a, wellFormed a = true → ((a == a) = true ↔ noNaN a = true)

theorem PartialEquivalence.of_lawful {α : Type} [BEq α] {wellFormed noNaN : α → Bool}
    (h : ∀ a, wellFormed a = true → LawfulBeq wellFormed noNaN a) :
    PartialEquivalence wellFormed noNaN where
  symm a b ha hb := (h a ha).symm b hb
  trans a b c ha _ _ := (h a ha).trans b c
  self_iff a ha := (h a ha).self

/-- Two collections have the same names, and under each name items that are equal. -/
def Keyed.SameContents {α : Type} [HasName α] [BEq α] (s t : Keyed α) : Prop :=
  (∀ n, s.contains n = t.contains n) ∧
    ∀ a ∈ s.toList, ∀ b ∈ t.toList, HasName.key a = HasName.key b → (a == b) = true

/-- Equality is a partial equivalence on values, objects, attributes, steps, deltas and the sets of
them. What is equal is hashed alike, deltas of two kinds are never equal, and comparing sets from
the left finds out whether they have the same contents. -/
theorem equality_lawful :
    (PartialEquivalence (Value.meets .wellFormed) (Value.meets .noNaN) ∧
      PartialEquivalence (EmbeddedObject.meets .wellFormed) (EmbeddedObject.meets .noNaN) ∧
      PartialEquivalence (Attribute.meets .wellFormed) (Attribute.meets .noNaN) ∧
      PartialEquivalence (AttributeSet.meets .wellFormed) (AttributeSet.meets .noNaN)) ∧
    (PartialEquivalence opWellFormed (opMeets .noNaN) ∧
      PartialEquivalence AttributeOp.wellFormed (attributeOpMeets .noNaN) ∧
      PartialEquivalence Delta.wellFormed (Delta.meets .noNaN) ∧
      PartialEquivalence DeltaSet.wellFormed (fun s => deltasMeet .noNaN s.toList)) ∧
    (∀ a b : Attribute, (a == b) = true → HasName.fed a = HasName.fed b) ∧
    (∀ d e : Delta, (d == e) = true → HasName.fed d = HasName.fed e) ∧
    (∀ n m ops vs, (Delta.complex n ops == .replace m vs) = false ∧
      (Delta.replace m vs == .complex n ops) = false) ∧
    (∀ s t : AttributeSet, Distinct s.toList → Distinct t.toList →
      ((s == t) = true ↔ s.SameContents t)) ∧
    ∀ s t : DeltaSet, Distinct s.toList → Distinct t.toList →
      ((s == t) = true ↔ s.SameContents t) := by
  refine ⟨⟨.of_lawful Value.lawful, .of_lawful EmbeddedObject.lawful, .of_lawful Attribute.lawful,
    .of_lawful AttributeSet.lawful⟩, ⟨.of_lawful ValueOp.lawful, .of_lawful AttributeOp.lawful,
    .of_lawful Delta.lawful, .of_lawful DeltaSet.lawful⟩, fun a b h => ?_, fun d e h => ?_,
    Delta.complex_ne_replace, fun s t hs ht => ?_, fun s t hs ht => ?_⟩
  · exact HasName.fed_congr (Attribute.beq_iff.1 h).1
  · exact HasName.fed_congr (Delta.key_eq_of_beq h)
  · exact AttributeSet.beq_iff.trans (Keyed.matches_iff hs ht)
  · exact DeltaSet.beq_iff.trans (Keyed.matches_iff hs ht)

def booth : AttributeSet :=
  ⟨[⟨⟨"Room", by decide⟩, [.string "4"]⟩, ⟨⟨"Hook", by decide⟩, [.integer 2]⟩]⟩

def boothRespelled : AttributeSet :=
  ⟨[⟨⟨"hook", by decide⟩, [.integer 2]⟩, ⟨⟨"ROOM", by decide⟩, [.string "4"]⟩]⟩

def unmeasured : Delta :=
  .complex ⟨"booth", by decide⟩ [.merge ⟨0, "*", fun _ => true⟩
    ⟨[.replace ⟨"climate", by decide⟩
      [.embedded none ⟨.account, ⟨[⟨⟨"celsius", by decide⟩, [.double .nan]⟩]⟩⟩]]⟩]

/-- A booth is equal to one in another spelling; a delta that sets a temperature that is no number
is not equal to itself. -/
theorem booth_respelled :
    (booth == boothRespelled) = true ∧ (boothRespelled == booth) = true ∧
      boothRespelled.SameContents booth ∧ (unmeasured == unmeasured) = false := by
  obtain ⟨⟨-, -, -, hsets⟩, ⟨-, -, hdeltas, -⟩, -, -, -, hcontents, -⟩ := equality_lawful
  have hequal : (booth == boothRespelled) = true := by decide +kernel
  have hturned := hsets.symm booth boothRespelled (by decide) (by decide) hequal
  have hself := hdeltas.self_iff unmeasured (by decide +kernel)
  have hnan : Delta.meets .noNaN unmeasured = false := by decide +kernel
  exact ⟨hequal, hturned, (hcontents _ _ (by decide) (by decide)).1 hturned,
    Bool.eq_false_iff.2 fun h => Bool.eq_false_iff.1 hnan (hself.1 h)⟩

end Provisioning
