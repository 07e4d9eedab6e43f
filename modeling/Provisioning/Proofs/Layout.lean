import Provisioning.Proofs.Payload

/-!
# Where attributes stand after a change

Items that are laid over a collection take the places of their namesakes, and those that are new
follow in their own order (`Keyed.toList_layAll`). So what deltas make of an attribute stands in its
place, and what they make of absent ones comes at the end; deltas in another order change the order
of the end and nothing else (`applyTo_pointwise`). An edit leaves attributes in their places too,
but those that have no values left are gone (`Edit.toList_run`).
-/
namespace Provisioning

namespace Keyed

variable {α : Type} [HasName α] {s : Keyed α} {a : α}

theorem contains_iff_exists {n : String} :
    s.contains n = true ↔ ∃ b ∈ s.toList, HasName.key b = Text.fold n := by
  rw [contains, get?_eq_find?, ← mem_keys_iff, List.mem_map]

theorem contains_of_mem (h : a ∈ s.toList) : s.contains (HasName.name a).text = true :=
  contains_iff_exists.2 ⟨a, h, rfl⟩

theorem contains_congr {m n : String} (h : Text.fold m = Text.fold n) :
    s.contains m = s.contains n :=
  congrArg Option.isSome (find?_congr h)

theorem get?_of_not_contains {n : String} (h : s.contains n = false) : s.get? n = none := by
  rwa [contains, Option.isSome_eq_false_iff, Option.isNone_iff_eq_none] at h

theorem key_ne_of_not_contains (h : s.contains (HasName.name a).text = false) :
    ∀ b ∈ s.toList, HasName.key b ≠ HasName.key a := by
  intro b hb hkey
  rw [contains_iff_exists.2 ⟨b, hb, hkey⟩] at h
  cases h

theorem distinct_of_perm {items items' : List α} (hd : Distinct items) (h : items'.Perm items) :
    Distinct items' :=
  h.symm.pairwise hd fun hab hba => hab hba.symm

/-- Where no name repeats, look-ups do not depend on the order. -/
theorem find?_of_perm {items items' : List α} (hd : Distinct items) (h : items'.Perm items)
    (n : String) : find? items' n = find? items n := by
  cases ha : find? items n with
  | none => exact find?_eq_none_iff.2 fun b hb => find?_eq_none_iff.1 ha b (h.mem_iff.1 hb)
  | some a =>
    have hmem : a ∈ items' := h.mem_iff.2 (mem_of_find? ha)
    rw [← find?_congr (key_of_find? ha)]
    exact find?_name (distinct_of_perm hd h) hmem

/-- Where no name repeats, an item that is put replaces its namesake. -/
theorem putList_of_contains (hd : Distinct s.toList)
    (h : s.contains (HasName.name a).text = true) :
    putList a s.toList =
      s.toList.map fun b => if HasName.key b = HasName.key a then a else b := by
  obtain ⟨items⟩ := s
  obtain ⟨b, hb, hba⟩ := contains_iff_exists.1 h
  clear h
  simp only at hd hb ⊢
  induction items with
  | nil => cases hb
  | cons c items ih =>
    obtain ⟨hc, hitems⟩ := distinct_cons.1 hd
    rw [putList_cons, List.map_cons]
    by_cases hca : HasName.key c = HasName.key a
    · have hrest : items.map (fun b => if HasName.key b = HasName.key a then a else b) = items := by
        refine (List.map_congr_left fun d hd => ?_).trans (List.map_id items)
        exact if_neg fun hda => hc d hd (hca.trans hda.symm)
      rw [if_pos hca, if_pos hca, hrest]
    · rw [if_neg hca, if_neg hca]
      rcases List.mem_cons.1 hb with rfl | hb
      · exact absurd hba hca
      · rw [ih hitems hb]

theorem putList_of_not_contains (h : s.contains (HasName.name a).text = false) :
    putList a s.toList = s.toList ++ [a] := by
  have hne := key_ne_of_not_contains h
  obtain ⟨items⟩ := s
  clear h
  simp only at hne ⊢
  induction items with
  | nil => rfl
  | cons b items ih =>
    rw [putList_cons, if_neg (hne b List.mem_cons_self), List.cons_append,
      ih fun c hc => hne c (List.mem_cons_of_mem _ hc)]

/-- Where no name repeats, erasing a name takes away all that has its key. -/
theorem eraseP_eq_filter {items : List α} (hd : Distinct items) (n : String) :
    items.eraseP (HasName.is · n) = items.filter fun b => !HasName.is b n := by
  induction items with
  | nil => rfl
  | cons b items ih =>
    obtain ⟨hb, hitems⟩ := distinct_cons.1 hd
    by_cases h : HasName.is b n = true
    · have hrest : items.filter (fun c => !HasName.is c n) = items := by
        refine List.filter_eq_self.2 fun c hc => ?_
        rw [Bool.not_eq_true', ← Bool.not_eq_true]
        intro hcn
        exact hb c hc (((HasName.is_iff b n).1 h).trans ((HasName.is_iff c n).1 hcn).symm)
      rw [List.eraseP_cons_of_pos (p := (HasName.is · n)) h, List.filter_cons_of_neg (by simp [h]),
        hrest]
    · rw [List.eraseP_cons_of_neg (p := (HasName.is · n)) h, List.filter_cons_of_pos (by simp [h]),
        ih hitems]

/-- Puts an item, or, if it is one that clears its name, erases its namesake. -/
def lay (clears : α → Bool) (s : Keyed α) (a : α) : Keyed α :=
  if clears a then s.erase (HasName.name a).text else s.put a

/-- What is left of an item when others are laid over its collection. -/
def overlaid (clears : α → Bool) (items : List α) (b : α) : Option α :=
  match find? items (HasName.name b).text with
  | some a => if clears a then none else some a
  | none => some b

section

variable (clears : α → Bool)

theorem overlaid_singleton (a b : α) :
    overlaid clears [a] b =
      if HasName.key b = HasName.key a then (if clears a then none else some a) else some b := by
  have hkey : HasName.key a = Text.fold (HasName.name b).text ↔ HasName.key b = HasName.key a :=
    eq_comm
  rw [overlaid, find?_cons, find?_nil]
  by_cases h : HasName.key b = HasName.key a
  · rw [if_pos (hkey.2 h), if_pos h]
  · rw [if_neg (mt hkey.1 h), if_neg h]

theorem overlaid_of_new {items : List α} (ha : ∀ b ∈ items, HasName.key a ≠ HasName.key b) :
    overlaid clears items a = some a := by
  have hnone : find? items (HasName.name a).text = none :=
    find?_eq_none_iff.2 fun b hb hkey => ha b hb hkey.symm
  rw [overlaid, hnone]

/-- Items can be laid over one at a time, if none of the others is for the name of the first. -/
theorem overlaid_cons {items : List α} (ha : ∀ b ∈ items, HasName.key a ≠ HasName.key b) (b : α) :
    (overlaid clears [a] b).bind (overlaid clears items) = overlaid clears (a :: items) b := by
  rw [overlaid_singleton]
  by_cases h : HasName.key b = HasName.key a
  · have hkey : HasName.key a = Text.fold (HasName.name b).text := h.symm
    rw [if_pos h, overlaid, find?_cons, if_pos hkey]
    dsimp only
    split
    · rfl
    · exact overlaid_of_new clears ha
  · have hkey : HasName.key a ≠ Text.fold (HasName.name b).text := fun e => h e.symm
    rw [if_neg h, Option.bind_some, overlaid, overlaid, find?_cons, if_neg hkey]

/-- An item that clears its name takes its namesake away. -/
theorem toList_lay_of_clears (hs : Distinct s.toList) (ha : clears a = true) :
    (s.lay clears a).toList = s.toList.filterMap (overlaid clears [a]) := by
  rw [lay, if_pos ha, toList_erase, eraseP_eq_filter hs, ← List.filterMap_eq_filter]
  refine List.filterMap_congr fun b _ => ?_
  rw [overlaid_singleton, if_pos ha]
  by_cases h : HasName.key b = HasName.key a
  · simp [Option.guard, (HasName.is_name_iff b a).2 h, h]
  · simp [Option.guard, mt (HasName.is_name_iff b a).1 h, h]

/-- Any other item takes the place of its namesake, or comes at the end. -/
theorem toList_lay_of_not_clears (hs : Distinct s.toList) (ha : clears a = false) :
    (s.lay clears a).toList =
      s.toList.filterMap (overlaid clears [a]) ++
        if s.contains (HasName.name a).text then [] else [a] := by
  have hplace : s.toList.filterMap (overlaid clears [a]) =
      s.toList.map fun b => if HasName.key b = HasName.key a then a else b := by
    rw [← List.filterMap_eq_map]
    refine List.filterMap_congr fun b _ => ?_
    rw [overlaid_singleton, if_neg (Bool.eq_false_iff.1 ha), Function.comp_apply]
    split <;> rfl
  rw [lay, if_neg (Bool.eq_false_iff.1 ha), hplace, toList_put]
  cases h : s.contains (HasName.name a).text with
  | true => rw [putList_of_contains hs h, if_pos rfl, List.append_nil]
  | false =>
    have hsame : s.toList.map (fun b => if HasName.key b = HasName.key a then a else b) =
        s.toList.map id :=
      List.map_congr_left fun b hb => if_neg (key_ne_of_not_contains h b hb)
    rw [putList_of_not_contains h, if_neg Bool.false_ne_true, hsame, List.map_id]

/-- One item takes the place of its namesake, or comes at the end. -/
theorem toList_lay (hs : Distinct s.toList) (a : α) :
    (s.lay clears a).toList =
      s.toList.filterMap (overlaid clears [a]) ++
        [a].filter fun b => !clears b && !s.contains (HasName.name b).text := by
  rw [List.filter_singleton]
  cases ha : clears a with
  | true => exact (toList_lay_of_clears clears hs ha).trans (List.append_nil _).symm
  | false =>
    rw [toList_lay_of_not_clears clears hs ha]
    cases s.contains (HasName.name a).text <;> rfl

theorem distinct_lay (hs : Distinct s.toList) (a : α) :
    Distinct (s.lay clears a).toList := by
  unfold lay
  split
  · exact distinct_erase hs _
  · exact distinct_putList a hs

theorem contains_lay_of_ne (hs : Distinct s.toList) {n : String}
    (h : HasName.key a ≠ Text.fold n) : (s.lay clears a).contains n = s.contains n := by
  have hne : Text.fold (HasName.name a).text ≠ Text.fold n := h
  unfold lay
  split
  · rw [contains, get?_erase hs, if_neg hne, contains]
  · rw [contains, get?_put, if_neg h, contains]

/-- An item stands in the place of its namesake, or its namesake is gone if it clears; the items
that are new follow in their order. -/
theorem toList_layAll (hs : Distinct s.toList) {items : List α}
    (hitems : Distinct items) :
    (items.foldl (lay clears) s).toList =
      s.toList.filterMap (overlaid clears items) ++
        items.filter fun a => !clears a && !s.contains (HasName.name a).text := by
  induction items generalizing s with
  | nil =>
    rw [List.filter_nil, List.append_nil]
    exact List.filterMap_some.symm
  | cons a items ih =>
    obtain ⟨ha, hrest⟩ := distinct_cons.1 hitems
    -- the other items find the collection as it was under their names, and leave the first alone
    have hnew (b : α) (hb : b ∈ items) :
        (!clears b && !(s.lay clears a).contains (HasName.name b).text) =
          (!clears b && !s.contains (HasName.name b).text) := by
      rw [contains_lay_of_ne clears hs (ha b hb)]
    have hkept : ([a].filter fun b => !clears b && !s.contains (HasName.name b).text).filterMap
        (overlaid clears items) =
          [a].filter fun b => !clears b && !s.contains (HasName.name b).text := by
      rw [List.filter_singleton]
      cases !clears a && !s.contains (HasName.name a).text with
      | true => exact List.filterMap_cons_some (overlaid_of_new clears ha)
      | false => rfl
    rw [List.foldl_cons, ih (distinct_lay clears hs a) hrest, toList_lay clears hs,
      List.filterMap_append, List.filterMap_filterMap, funext (overlaid_cons clears ha), hkept,
      List.filter_congr hnew, List.append_assoc, ← List.filter_append, List.singleton_append]

end

/-- Items that are put take the places of their namesakes; those that are new follow. -/
theorem toList_putAll (hs : Distinct s.toList) {items : List α}
    (hitems : Distinct items) :
    (s.putAll items).toList =
      s.toList.map (fun b => (find? items (HasName.name b).text).getD b) ++
        items.filter fun a => !s.contains (HasName.name a).text := by
  have hlay := toList_layAll (fun _ => false) hs hitems
  have hplace (b : α) : overlaid (fun _ => false) items b =
      some ((find? items (HasName.name b).text).getD b) := by
    rw [overlaid]
    cases find? items (HasName.name b).text <;> rfl
  simp only [Bool.not_false, Bool.true_and, funext hplace, List.filterMap_eq_map'] at hlay
  exact hlay

end Keyed

open Keyed (Distinct)

/-- What deltas leave in the place of an attribute. -/
def changedInPlace (ds : DeltaSet) (a : Attribute) : Attribute :=
  match ds.get? a.name.text with
  | some d => d.applyTo (some a)
  | none => a

/-- The deltas of which the attributes are not there. -/
def newDeltas (ds : DeltaSet) (base : AttributeSet) : List Delta :=
  ds.toList.filter fun d => !base.contains d.name.text

variable {ds ds' : DeltaSet} {base : AttributeSet}

/-- Attributes stay in their places, and what deltas make of absent ones follows. -/
theorem toList_applyTo (hds : Distinct ds.toList) (hbase : Distinct base.toList) :
    (ds.applyTo base).toList =
      base.toList.map (changedInPlace ds) ++ (newDeltas ds base).map (·.applyTo none) := by
  rw [applyTo_eq_putAll, Keyed.toList_putAll hbase (distinct_deltaResults hds base)]
  congr 1
  · refine List.map_congr_left fun a ha => ?_
    have hself : base.get? a.name.text = some a := Keyed.find?_name hbase ha
    rw [find?_deltaResults, name_attribute, hself, changedInPlace, Keyed.get?_eq_find?]
    cases Keyed.find? ds.toList a.name.text <;> rfl
  · have hfilter : (deltaResults ds.toList base).filter
        (fun a => !base.contains (HasName.name a).text) =
          (newDeltas ds base).map fun d => d.applyTo (base.get? d.name.text) := by
      rw [deltaResults, newDeltas, List.filter_map]
      refine congrArg _ (List.filter_congr fun d _ => ?_)
      rw [Function.comp_apply, name_attribute, name_applyTo]
    rw [hfilter]
    refine List.map_congr_left fun d hd => ?_
    have hnew := (List.mem_filter.1 hd).2
    rw [Bool.not_eq_true'] at hnew
    rw [Keyed.get?_of_not_contains hnew]

theorem names_applyTo (hds : Distinct ds.toList) (hbase : Distinct base.toList) :
    (ds.applyTo base).names =
      base.toList.map
          (fun a => ((ds.get? a.name.text).map fun d => d.name.text).getD a.name.text) ++
        (newDeltas ds base).map fun d => d.name.text := by
  have hplace (a : Attribute) : (changedInPlace ds a).name.text =
      ((ds.get? a.name.text).map fun d => d.name.text).getD a.name.text := by
    rw [changedInPlace]
    cases ds.get? a.name.text with
    | none => rfl
    | some d => rw [name_applyTo, Option.map_some, Option.getD_some]
  rw [Keyed.names, toList_applyTo hds hbase, List.map_append, List.map_map, List.map_map]
  refine congrArg₂ _ (List.map_congr_left fun a _ => hplace a) (List.map_congr_left fun d _ => ?_)
  exact congrArg Name.text (name_applyTo d none)

/-- Deltas act name by name on the base, keep its order, and append what is new in their own order.
Deltas in another order append in another order; nothing else depends on it. -/
theorem applyTo_pointwise (ds : DeltaSet) (base : AttributeSet) (hds : Distinct ds.toList)
    (hbase : Distinct base.toList) :
    (∀ n, (ds.applyTo base).get? n =
      match ds.get? n with
      | some d => some (d.applyTo (base.get? n))
      | none => base.get? n) ∧
    (ds.applyTo base).toList =
      base.toList.map (changedInPlace ds) ++ (newDeltas ds base).map (·.applyTo none) ∧
    (ds.applyTo base).names =
      base.toList.map
          (fun a => ((ds.get? a.name.text).map fun d => d.name.text).getD a.name.text) ++
        (newDeltas ds base).map (fun d => d.name.text) ∧
    ∀ ds' : DeltaSet, ds'.toList.Perm ds.toList →
      ∃ kept appended appended', (ds.applyTo base).toList = kept ++ appended ∧
        (ds'.applyTo base).toList = kept ++ appended' ∧ kept.length = base.size ∧
        appended'.Perm appended := by
  refine ⟨get?_applyTo hds base, toList_applyTo hds hbase, names_applyTo hds hbase, ?_⟩
  intro ds' hperm
  have hds' : Distinct ds'.toList := Keyed.distinct_of_perm hds hperm
  have hget (n : String) : ds'.get? n = ds.get? n := Keyed.find?_of_perm hds hperm n
  have hkept : changedInPlace ds' = changedInPlace ds := by
    funext a
    rw [changedInPlace, changedInPlace, hget]
  refine ⟨base.toList.map (changedInPlace ds), (newDeltas ds base).map (·.applyTo none),
    (newDeltas ds' base).map (·.applyTo none), toList_applyTo hds hbase, ?_, List.length_map .., ?_⟩
  · rw [toList_applyTo hds' hbase, hkept]
  · exact (hperm.filter _).map _

def office : AttributeSet :=
  ⟨[⟨⟨"reception", by decide⟩, [.string "ann"]⟩, ⟨⟨"seats", by decide⟩, [.integer 7]⟩]⟩

def moves : DeltaSet :=
  ⟨[.complex ⟨"Fax", by decide⟩ [.delete none], .replace ⟨"SEATS", by decide⟩ [.integer 9],
    .complex ⟨"floor", by decide⟩ [.add [.integer 2]]]⟩

/-- An office gets a fax, more seats and a floor. -/
theorem moves_reversed :
    (moves.applyTo office).names = ["reception", "SEATS", "Fax", "floor"] ∧
    (DeltaSet.applyTo ⟨moves.toList.reverse⟩ office).names =
      ["reception", "SEATS", "floor", "Fax"] ∧
    ∃ kept appended appended', (moves.applyTo office).toList = kept ++ appended ∧
      (DeltaSet.applyTo ⟨moves.toList.reverse⟩ office).toList = kept ++ appended' ∧
      kept.length = 2 ∧ appended'.Perm appended := by
  obtain ⟨-, -, hnames, hperm⟩ := applyTo_pointwise moves office (by decide) (by decide)
  exact ⟨hnames, by decide, hperm ⟨moves.toList.reverse⟩ (List.reverse_perm _)⟩

/-- An attribute as it is stored: not at all if it has no values. -/
def Attribute.filled? (a : Attribute) : Option Attribute := if a.isEmpty then none else some a

namespace Edit

/-- What an edit leaves in the place of an attribute: if it names it, the new values in the edit's
spelling. -/
def revised (e : Edit) (a : Attribute) : Option Attribute :=
  match e.parts.find? (·.is a.name.text) with
  | some n => Attribute.filled? ⟨n, e.newValues n.text a.values⟩
  | none => some a

/-- What an edit makes of a name of its own that is not there. -/
def added (e : Edit) (current : AttributeSet) (n : Name) : Option Attribute :=
  if current.contains n.text then none else Attribute.filled? ⟨n, e.newValues n.text []⟩

variable {e : Edit} {current : AttributeSet}

theorem needs_of_contains {n : String} (h : current.contains n = true) :
    e.needs current n = true := by
  cases e with
  | change mode vs => cases mode <;> first | rfl | exact h
  | _ => rfl

/-- What is laid over an attribute that is there is what its own name says. -/
theorem overlaid_replacements (he : e.Distinct) (hd : Keyed.Distinct current.toList)
    {a : Attribute} (ha : a ∈ current.toList) :
    Keyed.overlaid Attribute.isEmpty (e.replacements current).toList a = e.revised a := by
  have hself : current.get? a.name.text = some a := Keyed.find?_name hd ha
  have hneeds (n : Name) : decide (e.needs current n.text = true ∧
      HasName.is (e.replacement current n) a.name.text = true) = n.is a.name.text := by
    have himp (hn : n.is a.name.text = true) : e.needs current n.text = true :=
      needs_of_contains
        ((Keyed.contains_congr ((Text.sameName_iff _ _).1 hn)).trans (Keyed.contains_of_mem ha))
    rw [Bool.eq_iff_iff, decide_eq_true_iff]
    exact and_iff_right_of_imp himp
  have hfind : Keyed.find? (e.replacements current).toList a.name.text =
      (e.parts.find? (·.is a.name.text)).map (e.replacement current) := by
    have hperm := replacements_perm he hd
    rw [← Keyed.find?_of_perm (distinct_replacements he hd) hperm.symm, Keyed.find?, List.find?_map,
      List.find?_filter]
    exact congrArg _ (congrArg (List.find? · e.parts) (funext hneeds))
  rw [Keyed.overlaid, name_attribute, hfind, revised]
  cases hn : e.parts.find? (·.is a.name.text) with
  | none => rfl
  | some n =>
    have hsame : n.is a.name.text = true :=
      List.find?_some (p := fun m : Name => m.is a.name.text) hn
    have hget : current.get? n.text = some a :=
      (Keyed.find?_congr ((Text.sameName_iff _ _).1 hsame)).trans hself
    rw [Option.map_some, replacement, values_of_get?_eq_some hget]
    rfl

theorem replacement_of_not_contains {n : Name} (h : current.contains n.text = false) :
    e.replacement current n = ⟨n, e.newValues n.text []⟩ := by
  rw [replacement, values_of_get?_eq_none (Keyed.get?_of_not_contains h)]

/-- A name that is not written back has no values to be. -/
theorem filled?_of_not_needs {n : Name} (h : e.needs current n.text = false) :
    Attribute.filled? ⟨n, e.newValues n.text []⟩ = none := by
  cases e with
  | change mode vs =>
    cases mode with
    | add => cases h
    | remove => rfl
  | _ => cases h

/-- An attribute that is new to a set, as it is stored there. -/
theorem guard_new (current : AttributeSet) (a : Attribute) :
    Option.guard (fun a => !a.isEmpty && !current.contains a.name.text) a =
      if current.contains a.name.text then none else a.filled? := by
  rw [Option.guard, Attribute.filled?]
  cases a.isEmpty <;> cases current.contains a.name.text <;> rfl

theorem filter_mergeChanges {mode : UpdateMode} {vs : AttributeSet}
    (hvs : Keyed.Distinct vs.toList) (current : AttributeSet) :
    (mergeChanges mode vs current).toList.filter
        (fun a => !a.isEmpty && !current.contains a.name.text) =
      (change mode vs).parts.filterMap ((change mode vs).added current) := by
  rw [← List.filterMap_eq_filter, parts, List.filterMap_map, mergeChanges, List.filterMap_filterMap]
  refine List.filterMap_congr fun c hc => ?_
  rw [mergeOne_eq hvs current hc, Function.comp_apply, added]
  cases hcontains : current.contains c.name.text with
  | true =>
    rw [needs_of_contains hcontains, if_pos rfl, if_pos rfl, Option.bind_some, guard_new]
    exact if_pos hcontains
  | false =>
    rw [if_neg Bool.false_ne_true, replacement_of_not_contains hcontains]
    cases hneeds : needs current c.name.text (change mode vs) with
    | true =>
      rw [if_pos rfl, Option.bind_some, guard_new]
      exact if_neg (Bool.eq_false_iff.1 hcontains)
    | false => exact (filled?_of_not_needs hneeds).symm

/-- What deltas leave in the place of an attribute is not new. -/
theorem contains_changedInPlace (ds : DeltaSet) {a : Attribute} (ha : a ∈ current.toList) :
    current.contains (changedInPlace ds a).name.text = true := by
  rw [← Keyed.contains_of_mem ha, changedInPlace]
  cases hget : ds.get? a.name.text with
  | none => rfl
  | some d => exact Keyed.contains_congr ((key_applyTo d _).trans (Keyed.key_of_find? hget))

theorem filter_applied {ds : DeltaSet} (hds : Keyed.Distinct ds.toList)
    (hd : Keyed.Distinct current.toList) :
    ((apply ds).replacements current).toList.filter
        (fun a => !a.isEmpty && !current.contains a.name.text) =
      (apply ds).parts.filterMap ((apply ds).added current) := by
  have hnew (a : Attribute) (ha : a ∈ (newDeltas ds current).map (·.applyTo none)) :
      Keyed.selects ds.names a = true := by
    obtain ⟨d, hd, rfl⟩ := List.mem_map.1 ha
    exact Keyed.selects_iff.2 ⟨_, name_mem_names (List.mem_filter.1 hd).1, key_applyTo d none⟩
  have hplace (a : Attribute)
      (ha : a ∈ (current.toList.map (changedInPlace ds)).filter (Keyed.selects ds.names)) :
      ¬ (!a.isEmpty && !current.contains a.name.text) = true := by
    obtain ⟨b, hb, rfl⟩ := List.mem_map.1 (List.mem_filter.1 ha).1
    rw [contains_changedInPlace ds hb, Bool.not_true, Bool.and_false]
    exact Bool.false_ne_true
  show ((ds.applyTo current).toList.filter (Keyed.selects ds.names)).filter _ = _
  rw [toList_applyTo hds hd, List.filter_append, List.filter_append, List.filter_eq_self.2 hnew,
    List.filter_eq_nil_iff.2 hplace, List.nil_append, ← List.filterMap_eq_filter,
    List.filterMap_map, newDeltas, List.filterMap_filter, parts, List.filterMap_map]
  refine List.filterMap_congr fun d hd => ?_
  rw [Function.comp_apply, Function.comp_apply, guard_new, name_applyTo, added]
  cases hcontains : current.contains d.name.text with
  | true => rfl
  | false =>
    have happly := applyTo_eq_replacement hds current hd
    rw [Keyed.get?_of_not_contains hcontains, replacement_of_not_contains hcontains] at happly
    rw [happly]
    rfl

/-- What comes at the end is what the names that are not there say, in their order. -/
theorem filter_replacements (he : e.Distinct) (hd : Keyed.Distinct current.toList) :
    (e.replacements current).toList.filter
        (fun a => !a.isEmpty && !current.contains a.name.text) =
      e.parts.filterMap (e.added current) := by
  cases e with
  | replace as =>
    rw [← List.filterMap_eq_filter, parts, List.filterMap_map]
    refine List.filterMap_congr fun a ha => ?_
    have hvalues : as.values a.name.text = a.values :=
      values_of_get?_eq_some (Keyed.find?_name he ha)
    rw [guard_new, Function.comp_apply, added, newValues, hvalues]
    cases a
    rfl
  | change mode vs => exact filter_mergeChanges he current
  | apply ds => exact filter_applied he hd

/-- Where everything stands after an edit: what it names in its place, or gone if it has no values
left, and what is new at the end, in the order of the edit. -/
theorem toList_run (he : e.Distinct) (hd : Keyed.Distinct current.toList) :
    (e.run current).toList =
      current.toList.filterMap e.revised ++ e.parts.filterMap (e.added current) := by
  have hlay := Keyed.toList_layAll Attribute.isEmpty hd (distinct_replacements he hd)
  rw [List.filterMap_congr fun a ha => overlaid_replacements he hd ha] at hlay
  exact hlay.trans (congrArg _ (filter_replacements he hd))

end Edit

end Provisioning
