import Provisioning.Delta.Builder
import Provisioning.Proofs.Equality

/-!
# Edits respect equality

Equal deltas make equal sets of equal sets, whatever the order and the spelling of names, provided
that the filters in them answer alike on equal candidates. Since a merge looks at whole values and
a delta at one name, one step is followed through values (`alike_run`), through the attribute of a
name (`Delta.Alike.applyTo`) and through a set (`alike_applyTo`); steps over an object follow from
these by looking names up.
-/
namespace Provisioning

open Keyed (Distinct)

namespace Filter

variable {α : Type} {r : α → α → Prop} {fs gs fs' gs' : List (Filter α)}

/-- Related candidates get the same answer. -/
def Respects (r : α → α → Prop) (f : Filter α) : Prop :=
  ∀ a b, r a b → f.accepts a = f.accepts b

/-- Filters of the two lists that are one instance give related candidates the same answer. -/
def Agree (r : α → α → Prop) (fs gs : List (Filter α)) : Prop :=
  ∀ f ∈ fs, ∀ g ∈ gs, f.same g = true → ∀ a b, r a b → f.accepts a = g.accepts b

theorem agree_of_respects (hsame : ∀ f ∈ fs, ∀ g ∈ gs, f.same g = true → f = g)
    (hrespects : ∀ f ∈ fs, f.Respects r) : Agree r fs gs := by
  intro f hf g hg hfg a b hab
  rw [← hsame f hf g hg hfg]
  exact hrespects f hf a b hab

/-- Lists of which all parts together agree do so part by part. -/
theorem Agree.of_flatMap {β : Type} {p : β → List (Filter α)} {as bs : List β}
    (h : Agree r (as.flatMap p) (bs.flatMap p)) {a b : β} (ha : a ∈ as) (hb : b ∈ bs) :
    Agree r (p a) (p b) :=
  fun f hf g hg => h f (List.mem_flatMap_of_mem ha hf) g (List.mem_flatMap_of_mem hb hg)

theorem Agree.mono (h : Agree r fs gs) (hfs : fs' ⊆ fs) (hgs : gs' ⊆ gs) : Agree r fs' gs' :=
  fun f hf g hg => h f (hfs hf) g (hgs hg)

theorem equalTo_respects (id : Nat) (value : Value) : (equalTo id value).Respects Value.Alike :=
  fun _ _ hvw => hvw.beq_congr value

theorem attributeNamed_respects (id : Nat) (name : String) :
    (attributeNamed id name).Respects Attribute.Alike :=
  fun _ _ hab => HasName.is_congr (Attribute.alike_iff.1 hab).1 name

end Filter

theorem any_congr_of_alike {p : Value → Bool} (hp : ∀ v w, v.Alike w → p v = p w)
    {vs ws : List Value} (h : List.Forall₂ Value.Alike vs ws) : vs.any p = ws.any p := by
  induction h with
  | nil => rfl
  | cons hvw _ ih => rw [List.any_cons, List.any_cons, hp _ _ hvw, ih]

theorem Filter.embeddedAttributeEquals_respects (id : Nat) (name : String) (value : Value) :
    (embeddedAttributeEquals id name value).Respects Value.Alike := by
  intro v w hvw
  cases Value.beq_iff.1 hvw.equal with
  | @embedded _ _ _ _ s t =>
    obtain ⟨-, hset⟩ := Value.alike_embedded_iff.1 hvw
    obtain ⟨-, -, hrel⟩ := AttributeSet.alike_iff.1 hset
    show (s.get? name).any (·.values.any (· == value)) = (t.get? name).any _
    obtain ⟨ha, hb⟩ | ⟨a, b, ha, hb, hab⟩ := rel_cases (hrel name)
    · rw [ha, hb]
    · have hvalues := (Attribute.alike_iff.1 hab).2
      rw [ha, hb, Option.any_some, Option.any_some]
      exact any_congr_of_alike (fun v w hvw => hvw.beq_congr value) hvalues
  | _ => rfl

mutual

/-- Whether no two deltas of a merge are for one attribute, and no name repeats in the values that
are brought in, at any depth. -/
def Delta.wellFormed : Delta → Bool
  | .complex _ ops => opsWellFormed ops
  | .replace _ vs => valuesMeet .wellFormed vs

def opWellFormed : Op Value Delta → Bool
  | .add vs => valuesMeet .wellFormed vs
  | .delete _ => true
  | .merge _ ⟨ds⟩ => decide (Distinct ds) && deltasWellFormed ds

def opsWellFormed : List (Op Value Delta) → Bool
  | [] => true
  | op :: ops => opWellFormed op && opsWellFormed ops

def deltasWellFormed : List Delta → Bool
  | [] => true
  | d :: ds => Delta.wellFormed d && deltasWellFormed ds

end

def DeltaSet.wellFormed (s : DeltaSet) : Bool :=
  decide (Distinct s.toList) && deltasWellFormed s.toList

theorem opsWellFormed_iff {ops : List ValueOp} :
    opsWellFormed ops = true ↔ ∀ op ∈ ops, opWellFormed op = true := by
  induction ops with
  | nil => simp [opsWellFormed]
  | cons op ops ih => rw [opsWellFormed, Bool.and_eq_true, ih, List.forall_mem_cons]

theorem deltasWellFormed_iff {ds : List Delta} :
    deltasWellFormed ds = true ↔ ∀ d ∈ ds, d.wellFormed = true := by
  induction ds with
  | nil => simp [deltasWellFormed]
  | cons d ds ih => rw [deltasWellFormed, Bool.and_eq_true, ih, List.forall_mem_cons]

theorem DeltaSet.wellFormed_iff {s : DeltaSet} :
    s.wellFormed = true ↔ Distinct s.toList ∧ ∀ d ∈ s.toList, d.wellFormed = true := by
  rw [DeltaSet.wellFormed, Bool.and_eq_true, decide_eq_true_eq, deltasWellFormed_iff]

theorem opWellFormed_merge {f : Filter Value} {s : DeltaSet} :
    opWellFormed (.merge f s) = s.wellFormed := by
  obtain ⟨ds⟩ := s
  rw [opWellFormed, DeltaSet.wellFormed]

theorem Delta.wellFormed_of_complex? {n : String} {ops : List ValueOp} {d : Delta}
    (h : Delta.complex? n ops = .ok d) (hops : ∀ op ∈ ops, opWellFormed op = true) :
    d.wellFormed = true := by
  obtain ⟨_, -, rfl⟩ := of_map_ok h
  rw [Delta.wellFormed]
  exact opsWellFormed_iff.2 hops

theorem Delta.wellFormed_of_replace? {n : String} {vs : List Value} {d : Delta}
    (h : Delta.replace? n vs = .ok d) (hvs : ∀ v ∈ vs, v.meets .wellFormed = true) :
    d.wellFormed = true := by
  obtain ⟨_, -, rfl⟩ := of_map_ok h
  rw [Delta.wellFormed]
  exact valuesMeet_iff.2 hvs

theorem DeltaSet.wellFormed_of_of? {ds : List Delta} {s : DeltaSet} (h : DeltaSet.of? ds = .ok s)
    (hds : ∀ d ∈ ds, d.wellFormed = true) : s.wellFormed = true := by
  have hlist : Keyed.ofList? ds = .ok s := of_mapError_ok h
  obtain ⟨rfl, hdistinct⟩ := Keyed.ofList?_eq_ok_iff.1 hlist
  exact DeltaSet.wellFormed_iff.2 ⟨hdistinct, hds⟩

theorem DeltaSet.wellFormed_of_add? {s t : DeltaSet} {d : Delta} (h : s.add? d = .ok t)
    (hs : s.wellFormed = true) (hd : d.wellFormed = true) : t.wellFormed = true := by
  obtain ⟨hdistinct, hmeet⟩ := DeltaSet.wellFormed_iff.1 hs
  unfold DeltaSet.add? at h
  split at h
  · cases h
  · rename_i hnew
    cases h
    have hnone : Keyed.find? s.toList d.name.text = none := by
      simpa [Keyed.contains, Keyed.get?_eq_find?] using hnew
    refine DeltaSet.wellFormed_iff.2 ⟨List.pairwise_append.2 ⟨hdistinct, ?_, ?_⟩, ?_⟩
    · exact List.pairwise_singleton _ _
    · intro e he e' he'
      rw [List.mem_singleton.1 he']
      exact Keyed.find?_eq_none_iff.1 hnone e he
    · intro e he
      rcases List.mem_append.1 he with he | he
      · exact hmeet e he
      · rw [List.mem_singleton.1 he]
        exact hd

theorem opWellFormed_of_merge? {f : Option (Filter Value)} {ds : List Delta} {op : ValueOp}
    (h : Op.merge? f ds = .ok op) (hds : ∀ d ∈ ds, d.wellFormed = true) :
    opWellFormed op = true := by
  cases f with
  | none => cases h
  | some f =>
    obtain ⟨s, hs, rfl⟩ := of_map_ok h
    rw [opWellFormed_merge]
    exact DeltaSet.wellFormed_of_of? hs hds

namespace Delta.Builder

theorem opsWellFormed_merge {b : Builder} {f : Option (Filter Value)} {ds : List Delta}
    (hops : ∀ op ∈ b.ops, opWellFormed op = true) (hds : ∀ d ∈ ds, d.wellFormed = true) :
    ∀ op ∈ (b.merge f ds).ops, opWellFormed op = true := by
  unfold Builder.merge
  split
  · rename_i step hstep
    intro op hop
    rcases List.mem_append.1 hop with hop | hop
    · exact hops op hop
    · rw [List.mem_singleton.1 hop]
      exact opWellFormed_of_merge? hstep hds
  · exact hops

theorem wellFormed_of_build {b : Builder} {d : Delta} (h : b.build = .ok d)
    (hops : ∀ op ∈ b.ops, opWellFormed op = true) : d.wellFormed = true := by
  unfold Builder.build at h
  split at h
  · cases h
  · exact Delta.wellFormed_of_complex? h hops

end Delta.Builder

mutual

/-- The filters over values in a delta, at any depth. -/
def Delta.filters : Delta → List (Filter Value)
  | .complex _ ops => opsFilters ops
  | .replace .. => []

def opFilters : Op Value Delta → List (Filter Value)
  | .add _ => []
  | .delete f => f.toList
  | .merge f ⟨ds⟩ => f :: deltasFilters ds

def opsFilters : List (Op Value Delta) → List (Filter Value)
  | [] => []
  | op :: ops => opFilters op ++ opsFilters ops

def deltasFilters : List Delta → List (Filter Value)
  | [] => []
  | d :: ds => Delta.filters d ++ deltasFilters ds

end

theorem opsFilters_eq_flatMap (ops : List ValueOp) : opsFilters ops = ops.flatMap opFilters := by
  induction ops with
  | nil => rfl
  | cons op ops ih => rw [opsFilters, ih, List.flatMap_cons]

theorem deltasFilters_eq_flatMap (ds : List Delta) :
    deltasFilters ds = ds.flatMap Delta.filters := by
  induction ds with
  | nil => rfl
  | cons d ds ih => rw [deltasFilters, ih, List.flatMap_cons]

theorem opFilters_merge {f : Filter Value} {s : DeltaSet} :
    opFilters (.merge f s) = f :: deltasFilters s.toList := by
  obtain ⟨ds⟩ := s
  rw [opFilters]

theorem valueOpsBeq_iff {ops ops' : List ValueOp} :
    valueOpsBeq ops ops' = true ↔ List.Forall₂ (fun op op' => (op == op') = true) ops ops' := by
  induction ops generalizing ops' with
  | nil => cases ops' <;> simp [valueOpsBeq]
  | cons op ops ih =>
    cases ops' with
    | nil => simp [valueOpsBeq]
    | cons op' ops' =>
      rw [valueOpsBeq, Bool.and_eq_true, ih, List.forall₂_cons]
      rfl

theorem deltasIn_iff {ds : List Delta} {s : DeltaSet} :
    deltasIn ds s = true ↔ ∀ d ∈ ds, ∃ e, s.get? d.name.text = some e ∧ (d == e) = true := by
  induction ds with
  | nil => simp [deltasIn]
  | cons d ds ih =>
    rw [deltasIn, Bool.and_eq_true, ih, List.forall_mem_cons]
    refine and_congr_left fun _ => ?_
    cases s.get? d.name.text with
    | none => simp
    | some e =>
      simp only [Option.some.injEq, exists_eq_left']
      rfl

theorem DeltaSet.beq_iff {s t : DeltaSet} :
    (s == t) = true ↔ Keyed.Matches (fun d e => (d == e) = true) s t := by
  show (s.size == t.size && deltasIn s.toList t) = true ↔ _
  rw [Bool.and_eq_true, beq_iff_eq, deltasIn_iff]
  exact ⟨fun h => ⟨h.1, h.2⟩, fun h => ⟨h.size, h.found⟩⟩

/-- The ways in which two deltas are equal. -/
inductive Delta.Equal : Delta → Delta → Prop where
  | complex {n m : Name} {ops ops' : List ValueOp} (hname : Text.fold n.text = Text.fold m.text)
    (hops : List.Forall₂ (fun op op' => (op == op') = true) ops ops') :
    Equal (.complex n ops) (.complex m ops')
  | replace {n m : Name} {vs ws : List Value} (hname : Text.fold n.text = Text.fold m.text)
    (hvalues : List.Forall₂ (fun v w => (v == w) = true) vs ws) :
    Equal (.replace n vs) (.replace m ws)

theorem Delta.equal_of_beq {d e : Delta} (h : (d == e) = true) : d.Equal e := by
  have hbeq : (d == e) = Delta.beq d e := rfl
  rw [hbeq] at h
  cases d <;> cases e <;>
    simp only [Delta.beq, Bool.and_eq_true, Bool.false_eq_true, Name.is, Text.sameName_iff] at h
  · exact .complex h.1 (valueOpsBeq_iff.1 h.2)
  · exact .replace h.1 (list_beq_iff.1 h.2)

/-- The ways in which two steps are equal. -/
inductive Op.Equal {α : Type} [BEq α] : Op α Delta → Op α Delta → Prop where
  | add {as bs : List α} (h : List.Forall₂ (fun a b => (a == b) = true) as bs) :
    Equal (.add as) (.add bs)
  | deleteAll : Equal (.delete none) (.delete none)
  | delete {f g : Filter α} (hsame : f.same g = true) : Equal (.delete (some f)) (.delete (some g))
  | merge {f g : Filter α} {s t : DeltaSet} (hsame : f.same g = true) (hset : (s == t) = true) :
    Equal (.merge f s) (.merge g t)

theorem Op.equal_of_sameFilter? {α : Type} [BEq α] {f g : Option (Filter α)}
    (h : sameFilter? f g = true) : Op.Equal (.delete f) (.delete g) := by
  cases f <;> cases g <;> simp only [sameFilter?, Bool.false_eq_true] at h
  · exact .deleteAll
  · exact .delete h

theorem ValueOp.equal_of_beq {op op' : ValueOp} (h : (op == op') = true) : Op.Equal op op' := by
  have hbeq : (op == op') = valueOpBeq op op' := rfl
  rw [hbeq] at h
  cases op with
  | add vs =>
    cases op' <;> simp only [valueOpBeq, Bool.false_eq_true] at h
    exact .add (list_beq_iff.1 h)
  | delete f =>
    cases op' <;> simp only [valueOpBeq, Bool.false_eq_true] at h
    exact Op.equal_of_sameFilter? h
  | merge f s =>
    obtain ⟨ds⟩ := s
    cases op' <;> simp only [valueOpBeq, Bool.false_eq_true, Bool.and_eq_true] at h
    case merge g t =>
      have hset : DeltaSet.beq ⟨ds⟩ t = true := by
        simp only [DeltaSet.beq, Keyed.size, Bool.and_eq_true]
        exact h.2
      exact .merge h.1 hset

theorem AttributeOp.equal_of_beq {op op' : AttributeOp} (h : (op == op') = true) :
    Op.Equal op op' := by
  have hbeq : (op == op') = attributeOpBeq op op' := rfl
  rw [hbeq] at h
  cases op <;> cases op' <;>
    simp only [attributeOpBeq, Bool.false_eq_true, Bool.and_eq_true] at h
  · exact .add (list_beq_iff.1 h)
  · exact Op.equal_of_sameFilter? h
  · exact .merge h.1 h.2

/-- Equal well-formed steps over values whose common filters answer alike. -/
structure ValueOp.Alike (op op' : ValueOp) : Prop where
  left : opWellFormed op = true
  right : opWellFormed op' = true
  equal : (op == op') = true
  agree : Filter.Agree Value.Alike (opFilters op) (opFilters op')

/-- Equal well-formed deltas whose common filters answer alike. -/
structure Delta.Alike (d e : Delta) : Prop where
  left : d.wellFormed = true
  right : e.wellFormed = true
  equal : (d == e) = true
  agree : Filter.Agree Value.Alike d.filters e.filters

/-- Equal well-formed sets of deltas whose common filters answer alike. -/
structure DeltaSet.Alike (s t : DeltaSet) : Prop where
  left : s.wellFormed = true
  right : t.wellFormed = true
  equal : (s == t) = true
  agree : Filter.Agree Value.Alike (deltasFilters s.toList) (deltasFilters t.toList)

theorem Delta.Alike.key_eq {d e : Delta} (h : d.Alike e) : HasName.key d = HasName.key e := by
  cases Delta.equal_of_beq h.equal with
  | complex hname _ => exact hname
  | replace hname _ => exact hname

/-- A name finds nothing in both of two sets, or deltas that act alike. -/
theorem DeltaSet.Alike.rel_get? {s t : DeltaSet} (h : s.Alike t) (n : String) :
    Option.Rel Delta.Alike (s.get? n) (t.get? n) := by
  obtain ⟨hs, hleft⟩ := DeltaSet.wellFormed_iff.1 h.left
  obtain ⟨-, hright⟩ := DeltaSet.wellFormed_iff.1 h.right
  have hmatches : Keyed.Matches Delta.Alike s t := by
    refine ⟨(DeltaSet.beq_iff.1 h.equal).size, fun d hd => ?_⟩
    obtain ⟨e, he, hde⟩ := (DeltaSet.beq_iff.1 h.equal).found d hd
    have hmem : e ∈ t.toList := Keyed.mem_of_find? he
    have hagree := h.agree
    rw [deltasFilters_eq_flatMap, deltasFilters_eq_flatMap] at hagree
    exact ⟨e, he, hleft d hd, hright e hmem, hde, hagree.of_flatMap hd hmem⟩
  exact hmatches.rel_get? hs n

theorem alike_ops {ops ops' : List ValueOp} (hleft : opsWellFormed ops = true)
    (hright : opsWellFormed ops' = true)
    (hequal : List.Forall₂ (fun op op' => (op == op') = true) ops ops')
    (hagree : Filter.Agree Value.Alike (opsFilters ops) (opsFilters ops')) :
    List.Forall₂ ValueOp.Alike ops ops' := by
  rw [opsWellFormed_iff] at hleft hright
  rw [opsFilters_eq_flatMap, opsFilters_eq_flatMap] at hagree
  refine forall₂_of_mem hequal fun op hop op' hop' hbeq => ?_
  exact ⟨hleft op hop, hright op' hop', hbeq, hagree.of_flatMap hop hop'⟩

/-- What a merge makes of a value: a new object of one that its filter accepts. -/
def mergedValue (f : Filter Value) (s : DeltaSet) : Value → Value
  | .embedded mark o =>
    if f.accepts (.embedded mark o) then .ofObject ⟨o.objectClass, s.applyTo o.attributes⟩
    else .embedded mark o
  | v => v

theorem result_run_mergeValues (f : Filter Value) (s : DeltaSet) (vs : List Value) :
    (ValueOp.run (.merge f s) vs).result = vs.map (mergedValue f s) := by
  obtain ⟨ds⟩ := s
  rw [ValueOp.run, Traced.result_mapList]
  refine List.map_congr_left fun v _ => ?_
  cases v with
  | embedded mark o =>
    rw [Traced.result_bind, mergedValue]
    show (if f.accepts (.embedded mark o) = true then _ else _ : Traced Value).result = _
    split <;> rfl
  | _ => rfl

/-- Sets that act alike on the attribute of each name act alike on sets. -/
theorem alike_applyTo_of_deltas {ds es : DeltaSet} (hds : ds.Alike es)
    (hrun : ∀ d ∈ ds.toList, ∀ e, d.Alike e → ∀ a b, Option.Rel Attribute.Alike a b →
      (d.applyTo a).Alike (e.applyTo b)) {s t : AttributeSet} (h : s.Alike t) :
    (ds.applyTo s).Alike (es.applyTo t) := by
  obtain ⟨hs, ht, hrel⟩ := AttributeSet.alike_iff.1 h
  have hd : Distinct ds.toList := (DeltaSet.wellFormed_iff.1 hds.left).1
  have he : Distinct es.toList := (DeltaSet.wellFormed_iff.1 hds.right).1
  refine AttributeSet.alike_iff.2 ⟨distinct_applyTo ds hs, distinct_applyTo es ht, fun n => ?_⟩
  rw [get?_applyTo hd, get?_applyTo he]
  obtain ⟨hnone, hnone'⟩ | ⟨d, e, hget, hget', hde⟩ := rel_cases (hds.rel_get? n)
  · rw [hnone, hnone']
    exact hrel n
  · rw [hget, hget']
    exact .some (hrun d (Keyed.mem_of_find? hget) e hde _ _ (hrel n))

theorem alike_mergedValue {f g : Filter Value} {ds es : DeltaSet}
    (hfg : ∀ v w, v.Alike w → f.accepts v = g.accepts w)
    (happly : ∀ s t : AttributeSet, s.Alike t → (ds.applyTo s).Alike (es.applyTo t))
    {v w : Value} (h : v.Alike w) : (mergedValue f ds v).Alike (mergedValue g es w) := by
  have haccepts := hfg v w h
  cases Value.beq_iff.1 h.equal with
  | @embedded mark mark' c d s t =>
    obtain ⟨hclass, hset⟩ := Value.alike_embedded_iff.1 h
    rw [mergedValue, mergedValue, ← haccepts]
    split
    · exact Value.alike_embedded_iff.2 ⟨hclass, happly s t hset⟩
    · exact h
  | _ => exact h

theorem alike_values {a b : Option Attribute} (h : Option.Rel Attribute.Alike a b) :
    List.Forall₂ Value.Alike ((a.map Attribute.values).getD [])
      ((b.map Attribute.values).getD []) := by
  cases h with
  | none => exact .nil
  | some hab => exact (Attribute.alike_iff.1 hab).2

-- The induction is on the edit on the left; the one on the right has the same shape, being equal.
mutual

/-- One step keeps values alike. -/
theorem alike_run (op op' : ValueOp) (h : ValueOp.Alike op op') (vs ws : List Value)
    (hvs : List.Forall₂ Value.Alike vs ws) :
    List.Forall₂ Value.Alike (ValueOp.run op vs).result (ValueOp.run op' ws).result := by
  match op with
  | .add us =>
    cases ValueOp.equal_of_beq h.equal with
    | add hus =>
      have hleft := h.left
      have hright := h.right
      rw [opWellFormed] at hleft hright
      rw [ValueOp.run, ValueOp.run]
      exact List.rel_append hvs (forall₂_alike_iff.2 ⟨hleft, hright, hus⟩)
  | .delete none =>
    cases ValueOp.equal_of_beq h.equal
    rw [ValueOp.run, ValueOp.run]
    exact .nil
  | .delete (some f) =>
    cases ValueOp.equal_of_beq h.equal with
    | @delete _ g hsame =>
      have hfg : ∀ v w, v.Alike w → f.accepts v = g.accepts w :=
        h.agree f (by simp [opFilters]) g (by simp [opFilters]) hsame
      rw [ValueOp.run, ValueOp.run, Traced.result_dropWhere, Traced.result_dropWhere]
      refine List.rel_filter (fun v w hvw => ?_) hvs
      simp [Filter.askValue, hfg v w hvw]
  | .merge f ⟨ds⟩ =>
    cases ValueOp.equal_of_beq h.equal with
    | @merge _ g _ es hsame hset =>
      have hagree := h.agree
      rw [opFilters_merge, opFilters_merge] at hagree
      have hfg := hagree f List.mem_cons_self g List.mem_cons_self hsame
      have hds : DeltaSet.Alike ⟨ds⟩ es :=
        ⟨opWellFormed_merge.symm.trans h.left, opWellFormed_merge.symm.trans h.right, hset,
          hagree.mono (List.subset_cons_self _ _) (List.subset_cons_self _ _)⟩
      -- the deltas of a merge act on whole sets, and reach their values through the base look-up
      have happly (s t : AttributeSet) (hst : s.Alike t) := alike_applyTo_of_deltas hds
        (fun d hd e hde a b hab => Delta.Alike.applyTo_of_mem ds d hd e hde a b hab) hst
      rw [result_run_mergeValues, result_run_mergeValues]
      exact List.rel_map (fun _ _ hvw => alike_mergedValue hfg happly hvw) hvs

/-- Steps keep values alike. -/
theorem alike_applyOps (ops ops' : List ValueOp) (h : List.Forall₂ ValueOp.Alike ops ops')
    (vs ws : List Value) (hvs : List.Forall₂ Value.Alike vs ws) :
    List.Forall₂ Value.Alike (applyOps ops vs) (applyOps ops' ws) := by
  match ops with
  | [] =>
    cases h
    exact hvs
  | op :: ops =>
    obtain ⟨⟩ | ⟨hop, hops⟩ := h
    rw [applyOps_cons, applyOps_cons]
    exact alike_applyOps ops _ hops _ _ (alike_run op _ hop vs ws hvs)

theorem Delta.Alike.applyTo_of_mem (ds : List Delta) (d : Delta) (hd : d ∈ ds) (e : Delta)
    (h : d.Alike e) (a b : Option Attribute) (hab : Option.Rel Attribute.Alike a b) :
    (d.applyTo a).Alike (e.applyTo b) := by
  match ds with
  | [] => cases hd
  | d' :: ds =>
    rcases List.mem_cons.1 hd with hhead | hd
    · rw [hhead] at h ⊢
      exact Delta.Alike.applyTo d' e h a b hab
    · exact Delta.Alike.applyTo_of_mem ds d hd e h a b hab

/-- A delta keeps attributes alike, or makes ones that are. -/
theorem Delta.Alike.applyTo (d e : Delta) (h : d.Alike e) (a b : Option Attribute)
    (hab : Option.Rel Attribute.Alike a b) : (d.applyTo a).Alike (e.applyTo b) := by
  have hkey : HasName.key (d.applyTo a) = HasName.key (e.applyTo b) := by
    rw [key_applyTo, key_applyTo, h.key_eq]
  refine Attribute.alike_iff.2 ⟨hkey, ?_⟩
  rw [values_applyTo, values_applyTo]
  have hleft := h.left
  have hright := h.right
  match d with
  | .complex _ ops =>
    cases Delta.equal_of_beq h.equal with
    | complex _ hops =>
      rw [Delta.wellFormed] at hleft hright
      have hagree := h.agree
      rw [Delta.filters, Delta.filters] at hagree
      exact alike_applyOps ops _ (alike_ops hleft hright hops hagree) _ _ (alike_values hab)
  | .replace _ vs =>
    cases Delta.equal_of_beq h.equal with
    | replace _ hvalues =>
      rw [Delta.wellFormed] at hleft hright
      exact forall₂_alike_iff.2 ⟨hleft, hright, hvalues⟩

end

/-- Deltas keep sets alike. -/
theorem alike_applyTo {ds es : DeltaSet} (hds : ds.Alike es) {s t : AttributeSet}
    (h : s.Alike t) : (ds.applyTo s).Alike (es.applyTo t) :=
  alike_applyTo_of_deltas hds (fun d _ e hde a b hab => Delta.Alike.applyTo d e hde a b hab) h

/-- Whether a step over attributes is well formed at every depth. -/
def AttributeOp.wellFormed : AttributeOp → Bool
  | .add as => attributesMeet .wellFormed as
  | .delete _ => true
  | .merge _ ds => DeltaSet.wellFormed ds

/-- The filters over values in a step over attributes, at any depth. -/
def AttributeOp.valueFilters : AttributeOp → List (Filter Value)
  | .merge _ ds => deltasFilters ds.toList
  | _ => []

theorem AttributeOp.wellFormed_of_merge? {f : Option (Filter Attribute)} {ds : List Delta}
    {op : AttributeOp} (h : Op.merge? f ds = .ok op) (hds : ∀ d ∈ ds, d.wellFormed = true) :
    AttributeOp.wellFormed op = true := by
  cases f with
  | none => cases h
  | some f =>
    obtain ⟨s, hs, rfl⟩ := of_map_ok h
    exact DeltaSet.wellFormed_of_of? hs hds

/-- Equal well-formed steps over attributes whose common filters answer alike. -/
structure AttributeOp.Alike (op op' : AttributeOp) : Prop where
  left : AttributeOp.wellFormed op = true
  right : AttributeOp.wellFormed op' = true
  equal : (op == op') = true
  agree : Filter.Agree Attribute.Alike op.filter?.toList op'.filter?.toList
  agreeValues :
    Filter.Agree Value.Alike (AttributeOp.valueFilters op) (AttributeOp.valueFilters op')

section

variable {as bs : List Attribute} {a b : Attribute}

theorem alike_iff_find? : AttributeSet.Alike ⟨as⟩ ⟨bs⟩ ↔ Distinct as ∧ Distinct bs ∧
    ∀ n, Option.Rel Attribute.Alike (Keyed.find? as n) (Keyed.find? bs n) :=
  AttributeSet.alike_iff

theorem alike_folded (h : AttributeSet.Alike ⟨as⟩ ⟨bs⟩) (hab : a.Alike b) :
    (folded as a).Alike (folded bs b) := by
  obtain ⟨-, -, hrel⟩ := alike_iff_find?.1 h
  obtain ⟨hkey, hvalues⟩ := Attribute.alike_iff.1 hab
  have hfind : Keyed.find? bs b.name.text = Keyed.find? bs a.name.text :=
    Keyed.find?_congr hkey.symm
  unfold folded
  rw [hfind]
  obtain ⟨hx, hy⟩ | ⟨x, y, hx, hy, hxy⟩ := rel_cases (hrel a.name.text)
  · rw [hx, hy]
    exact hab
  · rw [hx, hy]
    obtain ⟨hkeys, hcurrent⟩ := Attribute.alike_iff.1 hxy
    exact Attribute.alike_iff.2 ⟨hkeys, List.rel_append hcurrent hvalues⟩

theorem alike_foldIn (h : AttributeSet.Alike ⟨as⟩ ⟨bs⟩) (hab : a.Alike b) :
    AttributeSet.Alike ⟨foldIn as a⟩ ⟨foldIn bs b⟩ := by
  obtain ⟨hs, ht, hrel⟩ := alike_iff_find?.1 h
  have hfolded := alike_folded h hab
  have hkey := (Attribute.alike_iff.1 hfolded).1
  refine alike_iff_find?.2 ⟨distinct_foldIn hs a, distinct_foldIn ht b, fun n => ?_⟩
  rw [foldIn_eq_putList, foldIn_eq_putList, Keyed.find?_putList, Keyed.find?_putList, hkey]
  split
  · exact .some hfolded
  · exact hrel n

theorem alike_foldl_foldIn {added added' : List Attribute}
    (hadded : List.Forall₂ Attribute.Alike added added') (h : AttributeSet.Alike ⟨as⟩ ⟨bs⟩) :
    AttributeSet.Alike ⟨added.foldl foldIn as⟩ ⟨added'.foldl foldIn bs⟩ := by
  induction hadded generalizing as bs with
  | nil => exact h
  | cons hhead _ ih =>
    rw [List.foldl_cons, List.foldl_cons]
    exact ih (alike_foldIn h hhead)

theorem alike_mergedAttribute {f g : Filter Attribute} {ds es : DeltaSet}
    (hfg : ∀ a b, a.Alike b → f.accepts a = g.accepts b) (hds : ds.Alike es) (hab : a.Alike b) :
    (mergedAttribute f ds a).Alike (mergedAttribute g es b) := by
  have hget : es.get? b.name.text = es.get? a.name.text :=
    Keyed.find?_congr (Attribute.alike_iff.1 hab).1.symm
  unfold mergedAttribute
  rw [hfg a b hab, hget]
  split
  · obtain ⟨hx, hy⟩ | ⟨d, e, hx, hy, hde⟩ := rel_cases (hds.rel_get? a.name.text)
    · rw [hx, hy]
      exact hab
    · rw [hx, hy]
      exact Delta.Alike.applyTo d e hde (some a) (some b) (.some hab)
  · exact hab

/-- One step keeps objects alike. -/
theorem alike_runAttributeOp {op op' : AttributeOp} (hop : AttributeOp.Alike op op')
    (h : AttributeSet.Alike ⟨as⟩ ⟨bs⟩) :
    AttributeSet.Alike ⟨(op.run as).result⟩ ⟨(op'.run bs).result⟩ := by
  obtain ⟨hs, ht, hrel⟩ := alike_iff_find?.1 h
  have hdistinct := distinct_runAttributeOp op hs
  have hdistinct' := distinct_runAttributeOp op' ht
  cases AttributeOp.equal_of_beq hop.equal with
  | add hequal =>
    have hleft := attributesMeet_iff.1 hop.left
    have hright := attributesMeet_iff.1 hop.right
    have hadded := forall₂_of_mem hequal fun a ha b hb hab =>
      Attribute.Alike.mk (hleft a ha) (hright b hb) hab
    rw [AttributeOp.run, AttributeOp.run]
    exact alike_foldl_foldIn hadded h
  | deleteAll => exact alike_iff_find?.2 ⟨hdistinct, hdistinct', fun _ => .none⟩
  | @delete f g hsame =>
    have hfg : ∀ a b, a.Alike b → f.accepts a = g.accepts b :=
      hop.agree f (by simp [Op.filter?]) g (by simp [Op.filter?]) hsame
    refine alike_iff_find?.2 ⟨hdistinct, hdistinct', fun n => ?_⟩
    rw [AttributeOp.run, AttributeOp.run, Traced.result_dropWhere, Traced.result_dropWhere,
      Keyed.find?_filter_of_distinct _ hs, Keyed.find?_filter_of_distinct _ ht]
    obtain ⟨hx, hy⟩ | ⟨a, b, hx, hy, hab⟩ := rel_cases (hrel n)
    · rw [hx, hy]
      exact .none
    · rw [hx, hy]
      simp only [Option.filter_some, Filter.askAttribute, hfg a b hab]
      split
      · exact .some hab
      · exact .none
  | @merge f g ds es hsame hset =>
    have hfg : ∀ a b, a.Alike b → f.accepts a = g.accepts b :=
      hop.agree f (by simp [Op.filter?]) g (by simp [Op.filter?]) hsame
    have hds : ds.Alike es := ⟨hop.left, hop.right, hset, hop.agreeValues⟩
    refine alike_iff_find?.2 ⟨hdistinct, hdistinct', fun n => ?_⟩
    rw [result_run_merge, result_run_merge, Keyed.find?_map (key_mergedAttribute f ds),
      Keyed.find?_map (key_mergedAttribute g es)]
    obtain ⟨hx, hy⟩ | ⟨a, b, hx, hy, hab⟩ := rel_cases (hrel n)
    · rw [hx, hy]
      exact .none
    · rw [hx, hy]
      exact .some (alike_mergedAttribute hfg hds hab)

end

/-- Steps keep objects alike. -/
theorem alike_applyAttributeOps {ops ops' : List AttributeOp}
    (hops : List.Forall₂ AttributeOp.Alike ops ops') {s t : AttributeSet} (h : s.Alike t) :
    (applyAttributeOps ops s).Alike (applyAttributeOps ops' t) := by
  obtain ⟨as⟩ := s
  obtain ⟨bs⟩ := t
  show AttributeSet.Alike ⟨(runAttributeOps ops as).result⟩ ⟨(runAttributeOps ops' bs).result⟩
  induction hops generalizing as bs with
  | nil => exact h
  | cons hop _ ih =>
    rw [runAttributeOps, runAttributeOps, Traced.result_bind, Traced.result_bind]
    exact ih _ _ (alike_runAttributeOp hop h)

theorem alike_attributeOps {ops ops' : List AttributeOp}
    (hleft : ∀ op ∈ ops, AttributeOp.wellFormed op = true)
    (hright : ∀ op ∈ ops', AttributeOp.wellFormed op = true)
    (hequal : List.Forall₂ (fun op op' => (op == op') = true) ops ops')
    (hagree : Filter.Agree Attribute.Alike (ops.filterMap Op.filter?) (ops'.filterMap Op.filter?))
    (hagreeValues : Filter.Agree Value.Alike (ops.flatMap AttributeOp.valueFilters)
      (ops'.flatMap AttributeOp.valueFilters)) :
    List.Forall₂ AttributeOp.Alike ops ops' := by
  refine forall₂_of_mem hequal fun op hop op' hop' hbeq => ?_
  have hfilters {op : AttributeOp} {ops : List AttributeOp} (hop : op ∈ ops) :
      op.filter?.toList ⊆ ops.filterMap Op.filter? := fun f hf =>
    List.mem_filterMap.2 ⟨op, hop, Option.mem_toList.1 hf⟩
  exact ⟨hleft op hop, hright op' hop', hbeq, hagree.mono (hfilters hop) (hfilters hop'),
    hagreeValues.of_flatMap hop hop'⟩

/-- Equal edits of equal objects make equal objects, in whatever order and spelling names come,
provided that the filters involved answer alike on equal candidates. The filters by equality and by
name do so. -/
theorem edits_respect_equality (s t : AttributeSet) (hs : s.meets .wellFormed = true)
    (ht : t.meets .wellFormed = true) (hst : (s == t) = true) :
    (∀ ds es : DeltaSet, ds.wellFormed = true → es.wellFormed = true → (ds == es) = true →
      (∀ f ∈ deltasFilters ds.toList, ∀ g ∈ deltasFilters es.toList, f.same g = true → f = g) →
      (∀ f ∈ deltasFilters ds.toList, f.Respects Value.Alike) →
      (ds.applyTo s == es.applyTo t) = true) ∧
    (∀ ops ops' : List AttributeOp, (∀ op ∈ ops, AttributeOp.wellFormed op = true) →
      (∀ op ∈ ops', AttributeOp.wellFormed op = true) → (ops == ops') = true →
      (∀ f ∈ ops.filterMap Op.filter?, ∀ g ∈ ops'.filterMap Op.filter?,
        f.same g = true → f = g) →
      (∀ f ∈ ops.filterMap Op.filter?, f.Respects Attribute.Alike) →
      (∀ f ∈ ops.flatMap AttributeOp.valueFilters, ∀ g ∈ ops'.flatMap AttributeOp.valueFilters,
        f.same g = true → f = g) →
      (∀ f ∈ ops.flatMap AttributeOp.valueFilters, f.Respects Value.Alike) →
      (applyAttributeOps ops s == applyAttributeOps ops' t) = true) ∧
    (∀ id value, (Filter.equalTo id value).Respects Value.Alike) ∧
    (∀ id name value, (Filter.embeddedAttributeEquals id name value).Respects Value.Alike) ∧
    ∀ id name, (Filter.attributeNamed id name).Respects Attribute.Alike := by
  have halike : s.Alike t := ⟨hs, ht, hst⟩
  refine ⟨?_, ?_, Filter.equalTo_respects, Filter.embeddedAttributeEquals_respects,
    Filter.attributeNamed_respects⟩
  · intro ds es hds hes hequal hsame hrespects
    have hagree := Filter.agree_of_respects hsame hrespects
    exact (alike_applyTo ⟨hds, hes, hequal, hagree⟩ halike).equal
  · intro ops ops' hops hops' hequal hsame hrespects hsameValues hrespectsValues
    have hagree := Filter.agree_of_respects hsame hrespects
    have hagreeValues := Filter.agree_of_respects hsameValues hrespectsValues
    have halikes := alike_attributeOps hops hops' (list_beq_iff.1 hequal) hagree hagreeValues
    exact (alike_applyAttributeOps halikes halike).equal

def rated (phone games game score : Name) (rating : Binary64) : AttributeSet :=
  ⟨[⟨phone, [.string "555"]⟩, ⟨games, [.ofObject ⟨⟨game⟩, ⟨[⟨score, [.double rating]⟩]⟩⟩]⟩]⟩

def ratedLower : AttributeSet :=
  rated ⟨"phone", by decide⟩ ⟨"games", by decide⟩ ⟨"game", by decide⟩ ⟨"score", by decide⟩
    (.zero false)

def ratedUpper : AttributeSet :=
  rated ⟨"PHONE", by decide⟩ ⟨"GAMES", by decide⟩ ⟨"GAME", by decide⟩ ⟨"SCORE", by decide⟩
    (.zero true)

def ratedZero : Filter Value := .embeddedAttributeEquals 0 "Score" (.double (.zero false))

def raiseZero (games score : Name) : DeltaSet :=
  ⟨[.complex games [.merge ratedZero ⟨[.replace score [.integer 1]]⟩]]⟩

def raiseZeroLower : DeltaSet := raiseZero ⟨"games", by decide⟩ ⟨"score", by decide⟩

def raiseZeroUpper : DeltaSet := raiseZero ⟨"GAMES", by decide⟩ ⟨"SCORE", by decide⟩

/-- A player whose game is rated with a zero of either sign, under names in either case: the games
that are rated with zero are raised. -/
theorem raiseZero_respects_equality :
    (ratedLower == ⟨ratedUpper.toList.reverse⟩) = true ∧
    (raiseZeroLower.applyTo ratedLower ==
      raiseZeroUpper.applyTo ⟨ratedUpper.toList.reverse⟩) = true ∧
    (applyAttributeOps [.merge (.attributeNamed 1 "Games") raiseZeroLower] ratedLower ==
      applyAttributeOps [.merge (.attributeNamed 1 "Games") raiseZeroUpper]
        ⟨ratedUpper.toList.reverse⟩) = true := by
  have hequal : (ratedLower == ⟨ratedUpper.toList.reverse⟩) = true := by decide +kernel
  obtain ⟨happly, hsteps, hequalTo, hembedded, hnamed⟩ :=
    edits_respect_equality ratedLower ⟨ratedUpper.toList.reverse⟩ (by decide) (by decide) hequal
  have hrespects : ratedZero.Respects Value.Alike := hembedded 0 "Score" _
  have hlower : deltasFilters raiseZeroLower.toList = [ratedZero] := rfl
  have hupper : deltasFilters raiseZeroUpper.toList = [ratedZero] := rfl
  refine ⟨hequal, happly _ _ (by decide) (by decide) (by decide +kernel) ?_ ?_,
    hsteps _ _ ?_ ?_ (by decide +kernel) ?_ ?_ ?_ ?_⟩
  · simp [hlower, hupper]
  · simp [hlower, hrespects]
  · simp only [List.forall_mem_singleton]
    decide
  · simp only [List.forall_mem_singleton]
    decide
  · simp [Op.filter?]
  · simp [Op.filter?, hnamed 1 "Games"]
  · simp [AttributeOp.valueFilters, hlower, hupper]
  · simp [AttributeOp.valueFilters, hlower, hrespects]

end Provisioning
