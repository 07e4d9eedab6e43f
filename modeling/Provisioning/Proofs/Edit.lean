import Mathlib.Data.List.Basic
import Provisioning.Connector.Memory
import Provisioning.Proofs.Keyed
import Provisioning.Proofs.Request

/-!
# Edits of an object

An edit replaces attributes, adds or removes values, or applies deltas. Each comes down to a set of
replacements, computed from the attributes that it names, which is then laid over the object. What
an edit makes of an object is said name by name: `get?_replacements_of_mentions` for the
replacements, `get?_overlay` for laying them over. Only the named attributes take part in the
replacements (`replacements_restrict`), so it makes no difference whether the others were fetched.
-/
namespace Provisioning

/-- A change of one object's attributes. -/
inductive Edit where
  | replace (attributes : AttributeSet)
  | change (mode : UpdateMode) (values : AttributeSet)
  | apply (deltas : DeltaSet)

namespace Edit

/-- The request for an edit of an object. -/
def request (cls : ObjectClass) (uid : Uid) (options : Options) : Edit → Invocation
  | .replace as => .update cls uid as options
  | .change mode vs => .changeValues mode cls uid vs options
  | .apply ds => .updateDelta cls uid ds options

/-- What an edit answers: an update the uid, deltas that they had no further effects. -/
def reply (uid : Uid) : Edit → Reply
  | .replace _ | .change .. => .uid uid
  | .apply _ => .effects Keyed.empty

/-- The names in an edit, as it spells them. -/
def names : Edit → List String
  | .replace as => as.names
  | .change _ vs => vs.names
  | .apply ds => ds.names

/-- The attributes to lay over an object that has the given ones. -/
def replacements (current : AttributeSet) : Edit → AttributeSet
  | .replace as => as
  | .change mode vs => mergeChanges mode vs current
  | .apply ds => (ds.applyTo current).restrict ds.names

/-- The attributes that an edit leaves of the given ones. -/
def run (e : Edit) (current : AttributeSet) : AttributeSet :=
  Memory.overlay current (e.replacements current)

end Edit

open Keyed (Distinct)

theorem name_attribute (a : Attribute) : HasName.name a = a.name := rfl

theorem key_attribute (a : Attribute) : HasName.key a = Text.fold a.name.text := rfl

theorem values_of_get?_eq_some {s : AttributeSet} {n : String} {a : Attribute}
    (h : s.get? n = some a) : s.values n = a.values := by
  rw [AttributeSet.values, h, Option.map_some, Option.getD_some]

theorem values_of_get?_eq_none {s : AttributeSet} {n : String} (h : s.get? n = none) :
    s.values n = [] := by
  rw [AttributeSet.values, h, Option.map_none, Option.getD_none]

theorem name_of_mergeOne {mode : UpdateMode} {base : AttributeSet} {c a : Attribute}
    (h : mergeOne mode base c = some a) : a.name = c.name := by
  cases mode <;> cases hb : base.get? c.name.text <;>
    simp only [mergeOne, hb, Option.some.injEq, reduceCtorEq] at h <;> subst h <;> rfl

/-- Added values follow those that are there; if there are none, the attribute is new. -/
theorem mergeOne_add (base : AttributeSet) (c : Attribute) :
    ∃ a, mergeOne .add base c = some a ∧ a.values = base.values c.name.text ++ c.values := by
  cases h : base.get? c.name.text with
  | none =>
    refine ⟨c, ?_, ?_⟩
    · simp only [mergeOne, h]
    · rw [values_of_get?_eq_none h, List.nil_append]
  | some b =>
    refine ⟨⟨c.name, b.values ++ c.values⟩, ?_, ?_⟩
    · simp only [mergeOne, h]
    · rw [values_of_get?_eq_some h]

/-- Removed values are taken from those that are there; an attribute that is not there stays so. -/
theorem mergeOne_remove (base : AttributeSet) (c : Attribute) :
    (∃ a, mergeOne .remove base c = some a ∧
      a.values = (base.values c.name.text).filter fun v => !c.values.any (· == v)) ∨
    mergeOne .remove base c = none ∧ base.get? c.name.text = none := by
  cases h : base.get? c.name.text with
  | none =>
    refine .inr ⟨?_, rfl⟩
    simp only [mergeOne, h]
  | some b =>
    refine .inl ⟨⟨c.name, b.values.filter fun v => !c.values.any (· == v)⟩, ?_, ?_⟩
    · simp only [mergeOne, h]
    · rw [values_of_get?_eq_some h]

theorem mergeOne_congr (mode : UpdateMode) {base base' : AttributeSet} {c : Attribute}
    (h : base.get? c.name.text = base'.get? c.name.text) :
    mergeOne mode base c = mergeOne mode base' c := by
  cases mode <;> simp only [mergeOne, h]

theorem distinct_mergeChanges (mode : UpdateMode) {changes : AttributeSet} (base : AttributeSet)
    (hd : Distinct changes.toList) : Distinct (mergeChanges mode changes base).toList := by
  refine List.Pairwise.filterMap _ (fun c d hcd a ha b hb => ?_) hd
  have hac : HasName.key a = HasName.key c := HasName.key_congr (name_of_mergeOne ha)
  have hbd : HasName.key b = HasName.key d := HasName.key_congr (name_of_mergeOne hb)
  rw [hac, hbd]
  exact hcd

theorem get?_mergeChanges (mode : UpdateMode) {changes : AttributeSet} (base : AttributeSet)
    (hd : Distinct changes.toList) (n : String) :
    (mergeChanges mode changes base).get? n = (changes.get? n).bind (mergeOne mode base) := by
  obtain ⟨cs⟩ := changes
  simp only [Keyed.get?_eq_find?, mergeChanges]
  induction cs with
  | nil => rfl
  | cons c cs ih =>
    obtain ⟨hc, hcs⟩ := Keyed.distinct_cons.1 hd
    rw [Keyed.find?_cons]
    by_cases hn : HasName.key c = Text.fold n
    · rw [if_pos hn]
      cases hm : mergeOne mode base c with
      | none =>
        have hnone : Keyed.find? cs n = none :=
          Keyed.find?_eq_none_iff.2 fun d hd e => hc d hd (hn.trans e.symm)
        rw [List.filterMap_cons_none hm, ih hcs, hnone, Option.bind_some, hm]
        rfl
      | some a =>
        have ha : HasName.key a = Text.fold n :=
          (HasName.key_congr (name_of_mergeOne hm)).trans hn
        rw [List.filterMap_cons_some hm, Keyed.find?_cons, if_pos ha, Option.bind_some, hm]
    · rw [if_neg hn, ← ih hcs]
      cases hm : mergeOne mode base c with
      | none => rw [List.filterMap_cons_none hm]
      | some a =>
        have ha : HasName.key a ≠ Text.fold n := fun e =>
          hn ((HasName.key_congr (name_of_mergeOne hm)).symm.trans e)
        rw [List.filterMap_cons_some hm, Keyed.find?_cons, if_neg ha]

/-- The attributes that deltas make of a base, each from the base attribute of its name. -/
def deltaResults (ds : List Delta) (base : AttributeSet) : List Attribute :=
  ds.map fun d => d.applyTo (base.get? d.name.text)

theorem result_runDeltas (ds : List Delta) (base result : AttributeSet) :
    (runDeltas ds base result).result = result.putAll (deltaResults ds base) := by
  induction ds generalizing result with
  | nil => rw [runDeltas]; rfl
  | cons d ds ih => rw [runDeltas, Traced.result_bind, ih]; rfl

theorem applyTo_eq_putAll (ds : DeltaSet) (base : AttributeSet) :
    ds.applyTo base = base.putAll (deltaResults ds.toList base) :=
  result_runDeltas ds.toList base base

/-- The values that a delta makes of those of an attribute, which are none if it is not there. -/
def Delta.onValues : Delta → List Value → List Value
  | .complex _ ops, values => applyOps ops values
  | .replace _ values, _ => values

theorem values_applyTo (d : Delta) (base : Option Attribute) :
    (d.applyTo base).values = d.onValues ((base.map Attribute.values).getD []) := by
  cases d with
  | complex n ops => rw [applyTo_complex, Delta.onValues]
  | replace n vs => rw [applyTo_replace, Delta.onValues]

theorem key_applyTo (d : Delta) (base : Option Attribute) :
    HasName.key (d.applyTo base) = HasName.key d :=
  HasName.key_congr (name_applyTo d base)

theorem distinct_applyTo (ds : DeltaSet) {base : AttributeSet} (hd : Distinct base.toList) :
    Distinct (ds.applyTo base).toList := by
  rw [applyTo_eq_putAll]
  exact Keyed.distinct_putAll hd _

theorem distinct_deltaResults {ds : List Delta} (hd : Distinct ds) (base : AttributeSet) :
    Distinct (deltaResults ds base) := by
  refine List.Pairwise.map _ (fun d e hde => ?_) hd
  rw [key_applyTo, key_applyTo]
  exact hde

theorem find?_deltaResults (ds : List Delta) (base : AttributeSet) (n : String) :
    Keyed.find? (deltaResults ds base) n =
      (Keyed.find? ds n).map fun d => d.applyTo (base.get? n) := by
  induction ds with
  | nil => rfl
  | cons d ds ih =>
    show Keyed.find? (d.applyTo (base.get? d.name.text) :: deltaResults ds base) n = _
    rw [Keyed.find?_cons, Keyed.find?_cons, key_applyTo, ih]
    by_cases hn : HasName.key d = Text.fold n
    · have hb : base.get? d.name.text = base.get? n := Keyed.find?_congr hn
      rw [if_pos hn, if_pos hn, hb]
      rfl
    · rw [if_neg hn, if_neg hn]

/-- Deltas act name by name, each on the base attribute of its name or on its absence. -/
theorem get?_applyTo {ds : DeltaSet} (hd : Distinct ds.toList) (base : AttributeSet) (n : String) :
    (ds.applyTo base).get? n =
      match ds.get? n with
      | some d => some (d.applyTo (base.get? n))
      | none => base.get? n := by
  rw [applyTo_eq_putAll, Keyed.get?_putAll base (distinct_deltaResults hd base),
    find?_deltaResults, ← Keyed.get?_eq_find?]
  cases ds.get? n <;> rfl

theorem distinct_layOver {current : AttributeSet} (hd : Distinct current.toList) (a : Attribute) :
    Distinct (Memory.layOver current a).toList := by
  unfold Memory.layOver
  split
  · exact Keyed.distinct_erase hd _
  · exact Keyed.distinct_putList a hd

theorem get?_layOver {current : AttributeSet} (hd : Distinct current.toList) (a : Attribute)
    (n : String) :
    (Memory.layOver current a).get? n =
      if HasName.key a = Text.fold n then (if a.isEmpty then none else some a)
      else current.get? n := by
  unfold Memory.layOver
  by_cases ha : a.isEmpty = true
  · rw [if_pos ha, if_pos ha, Keyed.get?_erase hd, key_attribute]
  · rw [if_neg ha, if_neg ha, Keyed.get?_put]

theorem distinct_overlay {current : AttributeSet} (hd : Distinct current.toList)
    (replacements : AttributeSet) : Distinct (Memory.overlay current replacements).toList := by
  obtain ⟨as⟩ := replacements
  unfold Memory.overlay
  induction as generalizing current with
  | nil => exact hd
  | cons a as ih => exact ih (distinct_layOver hd a)

/-- A replacement stands for its name, unless it is empty; other names are as they were. -/
theorem get?_overlay {current replacements : AttributeSet} (hd : Distinct current.toList)
    (hr : Distinct replacements.toList) (n : String) :
    (Memory.overlay current replacements).get? n =
      match replacements.get? n with
      | some a => if a.isEmpty then none else some a
      | none => current.get? n := by
  obtain ⟨as⟩ := replacements
  unfold Memory.overlay
  induction as generalizing current with
  | nil => rfl
  | cons a as ih =>
    obtain ⟨ha, has⟩ := Keyed.distinct_cons.1 hr
    rw [List.foldl_cons, ih (distinct_layOver hd a) has, get?_layOver hd a,
      Keyed.get?_eq_find? ⟨as⟩, Keyed.get?_eq_find? ⟨a :: as⟩, Keyed.find?_cons]
    by_cases hn : HasName.key a = Text.fold n
    · have hnone : Keyed.find? as n = none :=
        Keyed.find?_eq_none_iff.2 fun b hb e => ha b hb (hn.trans e.symm)
      rw [if_pos hn, if_pos hn, hnone]
    · rw [if_neg hn, if_neg hn]

/-- A selection by key that drops every replaced name does not notice the replacements. -/
theorem filter_overlay {p : Attribute → Bool}
    (hp : ∀ b c : Attribute, HasName.key b = HasName.key c → p b = p c) (current : AttributeSet)
    {replacements : AttributeSet} (hall : ∀ a ∈ replacements.toList, p a = false) :
    (Memory.overlay current replacements).toList.filter p = current.toList.filter p := by
  obtain ⟨as⟩ := replacements
  unfold Memory.overlay
  induction as generalizing current with
  | nil => rfl
  | cons a as ih =>
    have ha : p a = false := hall a List.mem_cons_self
    have hlay : (Memory.layOver current a).toList.filter p = current.toList.filter p := by
      unfold Memory.layOver
      split
      · exact Keyed.filter_eraseP (fun b hb => (hp b a ((HasName.is_name_iff b a).1 hb)).trans ha) _
      · rw [Keyed.toList_put, Keyed.filter_putList hp, if_neg (by simp [ha])]
    have hrest := ih (Memory.layOver current a) fun b hb => hall b (List.mem_cons_of_mem _ hb)
    rw [List.foldl_cons, hrest, hlay]

theorem mem_names_iff {α : Type} [HasName α] (s : Keyed α) (n : String) :
    (∃ m ∈ s.names, Text.fold m = Text.fold n) ↔ ∃ a, s.get? n = some a := by
  constructor
  · rintro ⟨m, hm, hmn⟩
    obtain ⟨a, ha, rfl⟩ := List.mem_map.1 hm
    cases hs : s.get? n with
    | some b => exact ⟨b, rfl⟩
    | none => exact absurd hmn (Keyed.find?_eq_none_iff.1 hs a ha)
  · rintro ⟨a, ha⟩
    exact ⟨_, List.mem_map_of_mem (Keyed.mem_of_find? ha), Keyed.key_of_find? ha⟩

theorem name_mem_names {α : Type} [HasName α] {s : Keyed α} {a : α} (h : a ∈ s.toList) :
    (HasName.name a).text ∈ s.names :=
  List.mem_map_of_mem h

/-- Changes are merged into the attributes that they name, whatever others there are. -/
theorem mergeChanges_restrict (mode : UpdateMode) {changes : AttributeSet} {ns : List String}
    (h : Keyed.Covers ns changes.names) (base : AttributeSet) :
    mergeChanges mode changes (base.restrict ns) = mergeChanges mode changes base := by
  have hone (c : Attribute) (hc : c ∈ changes.toList) :
      mergeOne mode (base.restrict ns) c = mergeOne mode base c :=
    mergeOne_congr mode (Keyed.get?_restrict_of_covers h base (name_mem_names hc))
  exact congrArg Keyed.mk (List.filterMap_congr hone)

theorem deltaResults_restrict {ds : DeltaSet} {ns : List String} (h : Keyed.Covers ns ds.names)
    (base : AttributeSet) :
    deltaResults ds.toList (base.restrict ns) = deltaResults ds.toList base := by
  refine List.map_congr_left fun d hd => ?_
  have hget : (base.restrict ns).get? d.name.text = base.get? d.name.text :=
    Keyed.get?_restrict_of_covers h base (name_mem_names hd)
  rw [hget]

/-- What deltas make of the attributes that they name, whatever others there are, is in the same
order too. -/
theorem restrict_applyTo_restrict {ds : DeltaSet} {ns names : List String}
    (h : Keyed.Covers ns ds.names) (hnames : Keyed.Covers ns names) (base : AttributeSet) :
    (ds.applyTo (base.restrict ns)).restrict names = (ds.applyTo base).restrict names := by
  have hall (a : Attribute) (ha : a ∈ deltaResults ds.toList base) :
      Keyed.selects ns a = true := by
    obtain ⟨d, hd, rfl⟩ := List.mem_map.1 ha
    exact Keyed.selects_of_covers h
      (Keyed.selects_iff.2 ⟨_, name_mem_names hd, key_applyTo d _⟩)
  -- the results are put among the attributes in place, so both are compared on the wider names
  have hwide : (ds.applyTo (base.restrict ns)).restrict ns = (ds.applyTo base).restrict ns := by
    refine congrArg Keyed.mk ?_
    show List.filter (Keyed.selects ns) (ds.applyTo (base.restrict ns)).toList =
      List.filter (Keyed.selects ns) (ds.applyTo base).toList
    rw [applyTo_eq_putAll, applyTo_eq_putAll, deltaResults_restrict h,
      Keyed.filter_putAll (Keyed.selects_congr _) _ hall,
      Keyed.filter_putAll (Keyed.selects_congr _) _ hall, Keyed.toList_restrict,
      List.filter_filter]
    simp only [Bool.and_self]
  rw [← Keyed.restrict_restrict hnames, hwide, Keyed.restrict_restrict hnames]

namespace Edit

/-- Whether an edit names an attribute, in any spelling. -/
def mentions (e : Edit) (n : String) : Bool := e.names.any (Text.sameName · n)

theorem mentions_iff (e : Edit) (n : String) :
    e.mentions n = true ↔ ∃ m ∈ e.names, Text.fold m = Text.fold n := by
  simp only [mentions, List.any_eq_true, Text.sameName_iff]

/-- Whether no two parts of an edit are for the same attribute. -/
def Distinct : Edit → Prop
  | .replace as => Keyed.Distinct as.toList
  | .change _ vs => Keyed.Distinct vs.toList
  | .apply ds => Keyed.Distinct ds.toList

theorem distinct_replacements {e : Edit} (he : e.Distinct) {current : AttributeSet}
    (hd : Keyed.Distinct current.toList) : Keyed.Distinct (e.replacements current).toList := by
  cases e with
  | replace as => exact he
  | change mode vs => exact distinct_mergeChanges mode current he
  | apply ds => exact Keyed.distinct_restrict (distinct_applyTo ds hd) _

/-- Every replacement is for a name of the edit. -/
theorem mentions_of_mem_replacements {e : Edit} {current : AttributeSet} {a : Attribute}
    (h : a ∈ (e.replacements current).toList) : e.mentions a.name.text = true := by
  rw [mentions_iff]
  cases e with
  | replace as => exact ⟨_, name_mem_names h, rfl⟩
  | change mode vs =>
    obtain ⟨c, hc, hm⟩ := List.mem_filterMap.1 h
    exact ⟨c.name.text, name_mem_names hc, by rw [name_of_mergeOne hm]⟩
  | apply ds =>
    obtain ⟨m, hm, ha⟩ := Keyed.selects_iff.1 (List.mem_filter.1 h).2
    exact ⟨m, hm, ha.symm⟩

/-- The replacements are computed from the attributes that the edit names. -/
theorem replacements_restrict (e : Edit) (current : AttributeSet) :
    e.replacements (current.restrict e.names) = e.replacements current := by
  cases e with
  | replace as => rfl
  | change mode vs => exact mergeChanges_restrict mode (Keyed.covers_self vs.names) current
  | apply ds =>
    have hself := Keyed.covers_self ds.names
    exact restrict_applyTo_restrict hself hself current

/-- The values that an edit makes of those of an attribute, which are none if it is not there. -/
def newValues (n : String) (values : List Value) : Edit → List Value
  | .replace as => as.values n
  | .change .add added => values ++ added.values n
  | .change .remove removed => values.filter fun v => !(removed.values n).any (· == v)
  | .apply ds =>
    match ds.get? n with
    | some d => d.onValues values
    | none => values

theorem get?_replacements_of_not_mentions {e : Edit} {n : String} (h : e.mentions n = false)
    (current : AttributeSet) : (e.replacements current).get? n = none := by
  refine Keyed.find?_eq_none_iff.2 fun a ha hk => ?_
  obtain ⟨m, hm, hma⟩ := (mentions_iff e _).1 (mentions_of_mem_replacements ha)
  have hn : e.mentions n = true := (mentions_iff e n).2 ⟨m, hm, hma.trans hk⟩
  rw [h] at hn
  cases hn

/-- A named attribute gets its new values as its replacement; none is needed for one that was not
there and gets no values. -/
theorem get?_replacements_of_mentions {e : Edit} (he : e.Distinct) {n : String}
    (h : e.mentions n = true) (current : AttributeSet) :
    (∃ a, (e.replacements current).get? n = some a ∧
      a.values = e.newValues n (current.values n)) ∨
    (e.replacements current).get? n = none ∧ current.get? n = none ∧
      e.newValues n (current.values n) = [] := by
  rw [mentions_iff] at h
  cases e with
  | replace as =>
    obtain ⟨a, ha⟩ := (mem_names_iff as n).1 h
    exact .inl ⟨a, ha, (values_of_get?_eq_some ha).symm⟩
  | change mode vs =>
    obtain ⟨c, hc⟩ := (mem_names_iff vs n).1 h
    have hget : (mergeChanges mode vs current).get? n = mergeOne mode current c := by
      rw [get?_mergeChanges mode current he, hc, Option.bind_some]
    have hbase := Keyed.get?_name current hc
    rw [name_attribute] at hbase
    have hvalues : current.values c.name.text = current.values n := by
      rw [AttributeSet.values, AttributeSet.values, hbase]
    have hvs : vs.values n = c.values := values_of_get?_eq_some hc
    cases mode with
    | add =>
      obtain ⟨a, ha, hav⟩ := mergeOne_add current c
      exact .inl ⟨a, hget.trans ha, by rw [hav, hvalues, newValues, hvs]⟩
    | remove =>
      rcases mergeOne_remove current c with ⟨a, ha, hav⟩ | ⟨hnone, habsent⟩
      · exact .inl ⟨a, hget.trans ha, by rw [hav, hvalues, newValues, hvs]⟩
      · rw [hbase] at habsent
        refine .inr ⟨hget.trans hnone, habsent, ?_⟩
        rw [newValues, values_of_get?_eq_none habsent, List.filter_nil]
  | apply ds =>
    obtain ⟨d, hd⟩ := (mem_names_iff ds n).1 h
    obtain ⟨m, hm, hmn⟩ := h
    refine .inl ⟨d.applyTo (current.get? n), ?_, ?_⟩
    · have hm' : m ∈ ds.names := hm
      rw [replacements, Keyed.get?_restrict_of_mem _ hm' hmn, get?_applyTo he, hd]
    · rw [newValues, hd]
      exact values_applyTo d _

/-- A named attribute has its new values afterwards, and is there if there are any. -/
theorem run_of_mentions {e : Edit} (he : e.Distinct) {n : String} (h : e.mentions n = true)
    {current : AttributeSet} (hd : Keyed.Distinct current.toList) :
    (e.run current).values n = e.newValues n (current.values n) ∧
      ((e.run current).contains n = true ↔ e.newValues n (current.values n) ≠ []) := by
  have hget : (e.run current).get? n = _ := get?_overlay hd (distinct_replacements he hd) n
  rcases get?_replacements_of_mentions he h current with ⟨a, ha, hvalues⟩ | ⟨hnone, hcur, hvalues⟩
  · rw [← hvalues]
    rw [ha] at hget
    by_cases hempty : a.values = []
    · have hn : (e.run current).get? n = none := by
        rw [hget]
        simp only [Attribute.isEmpty, hempty, List.isEmpty_nil, ↓reduceIte]
      refine ⟨(values_of_get?_eq_none hn).trans hempty.symm, ?_⟩
      simp only [Keyed.contains, hn, Option.isSome_none, Bool.false_eq_true, hempty, ne_eq,
        not_true_eq_false]
    · have hn : (e.run current).get? n = some a := by
        rw [hget]
        simp only [Attribute.isEmpty, List.isEmpty_iff, hempty, ↓reduceIte]
      refine ⟨values_of_get?_eq_some hn, ?_⟩
      simp only [Keyed.contains, hn, Option.isSome_some, hempty, ne_eq, not_false_eq_true]
  · rw [hnone, hcur] at hget
    refine ⟨(values_of_get?_eq_none hget).trans hvalues.symm, ?_⟩
    simp only [hvalues, Keyed.contains, hget, Option.isSome_none, Bool.false_eq_true, ne_eq,
      not_true_eq_false]

/-- The attributes that an edit does not name stay as they are and in their order. -/
theorem filter_run (e : Edit) (current : AttributeSet) :
    (e.run current).toList.filter (fun a => !e.mentions a.name.text) =
      current.toList.filter fun a => !e.mentions a.name.text := by
  refine filter_overlay (fun b c hbc => ?_) current fun a ha => ?_
  · have hb (m : String) : Text.sameName m b.name.text = Text.sameName m c.name.text := by
      rw [Bool.eq_iff_iff, Text.sameName_iff, Text.sameName_iff, ← key_attribute, hbc,
        key_attribute]
    simp only [mentions, hb]
  · rw [mentions_of_mem_replacements ha, Bool.not_true]

end Edit

end Provisioning
