import Provisioning.Proofs.Layout

/-!
# Steps over an object, name by name

A step over the attributes of an object does to the attribute of a name what it would do if there
were no others: what it adds under the name is appended, and a deletion or a merge asks its filter
about this attribute alone (`find?_runAttributeOp`). Steps keep names unique, so that this is true
of each of a sequence, and of the sequence as a whole (`find?_runAttributeOps`). A single merge is
then a set of deltas, without those that its filter does not admit (`applyAttributeOps_merge`).
-/
namespace Provisioning

open Keyed (Distinct)

/-- An attribute, or none, with the values of further ones of its name. The first of them all gives
the spelling. -/
def gathered : Option Attribute → List Attribute → Option Attribute
  | some a, more => some ⟨a.name, a.values ++ more.flatMap Attribute.values⟩
  | none, a :: more => some ⟨a.name, a.values ++ more.flatMap Attribute.values⟩
  | none, [] => none

/-- What a step makes of the attribute of a name, or of its absence. -/
def AttributeOp.onNamed (n : String) : AttributeOp → Option Attribute → Option Attribute
  | .add as, current => gathered current (as.filter (HasName.is · n))
  | .delete none, _ => none
  | .delete (some f), current => current.filter fun a => !f.accepts a
  | .merge f ds, current => current.map fun a =>
    if f.accepts a then ((ds.get? n).map fun d => d.applyTo (some a)).getD a else a

theorem gathered_nil (current : Option Attribute) : gathered current [] = current := by
  cases current with
  | none => rfl
  | some a =>
    obtain ⟨n, vs⟩ := a
    simp only [gathered, List.flatMap_nil, List.append_nil]

/-- Further attributes can be gathered one at a time. -/
theorem gathered_cons (current : Option Attribute) (a : Attribute) (more : List Attribute) :
    gathered current (a :: more) = gathered (gathered current [a]) more := by
  cases current with
  | none => simp only [gathered, List.flatMap_nil, List.append_nil]
  | some b =>
    simp only [gathered, List.flatMap_cons, List.flatMap_nil, List.append_nil, List.append_assoc]

theorem folded_eq (current : List Attribute) (a : Attribute) :
    some (folded current a) = gathered (Keyed.find? current a.name.text) [a] := by
  rw [folded]
  cases Keyed.find? current a.name.text with
  | none =>
    obtain ⟨n, vs⟩ := a
    simp only [gathered, List.flatMap_nil, List.append_nil]
  | some b => simp only [gathered, List.flatMap_cons, List.flatMap_nil, List.append_nil]

theorem find?_foldIn (current : List Attribute) (a : Attribute) (n : String) :
    Keyed.find? (foldIn current a) n =
      gathered (Keyed.find? current n) ([a].filter (HasName.is · n)) := by
  rw [foldIn_eq_putList, Keyed.find?_putList, key_folded, List.filter_singleton]
  by_cases h : HasName.key a = Text.fold n
  · have hfind : Keyed.find? current a.name.text = Keyed.find? current n := Keyed.find?_congr h
    rw [if_pos h, (HasName.is_iff a n).2 h, folded_eq, hfind]
    rfl
  · rw [if_neg h, Bool.eq_false_iff.2 fun his => h ((HasName.is_iff a n).1 his)]
    exact (gathered_nil _).symm

theorem find?_foldl_foldIn (as current : List Attribute) (n : String) :
    Keyed.find? (as.foldl foldIn current) n =
      gathered (Keyed.find? current n) (as.filter (HasName.is · n)) := by
  induction as generalizing current with
  | nil => exact (gathered_nil _).symm
  | cons a as ih =>
    rw [List.foldl_cons, ih, find?_foldIn, List.filter_singleton, List.filter_cons]
    cases HasName.is a n with
    | true => exact (gathered_cons _ a _).symm
    | false => exact congrArg (gathered · _) (gathered_nil _)

/-- A step looks at the attribute of a name alone, in a list in which no name repeats. -/
theorem find?_runAttributeOp (op : AttributeOp) {current : List Attribute} (hd : Distinct current)
    (n : String) :
    Keyed.find? (op.run current).result n = op.onNamed n (Keyed.find? current n) := by
  match op with
  | .add as =>
    rw [AttributeOp.run, Traced.result_pure]
    exact find?_foldl_foldIn as current n
  | .delete none => rfl
  | .delete (some f) =>
    rw [AttributeOp.run, Traced.result_dropWhere, Keyed.find?_filter_of_distinct _ hd,
      AttributeOp.onNamed]
    rfl
  | .merge f ds =>
    rw [result_run_merge, Keyed.find?_map (key_mergedAttribute f ds), AttributeOp.onNamed]
    refine Option.map_congr fun a ha => ?_
    have hkey : HasName.key a = Text.fold n := Keyed.key_of_find? ha
    have hds : ds.get? a.name.text = ds.get? n := Keyed.find?_congr hkey
    rw [mergedAttribute, hds]

/-- Steps one after the other keep names unique and look at the attribute of a name alone. -/
theorem find?_runAttributeOps (ops : List AttributeOp) {current : List Attribute}
    (hd : Distinct current) :
    Distinct (runAttributeOps ops current).result ∧
    ∀ n, Keyed.find? (runAttributeOps ops current).result n =
      ops.foldl (fun found op => op.onNamed n found) (Keyed.find? current n) := by
  induction ops generalizing current with
  | nil => exact ⟨hd, fun _ => rfl⟩
  | cons op ops ih =>
    obtain ⟨hdistinct, hfind⟩ := ih (distinct_runAttributeOp op hd)
    refine ⟨hdistinct, fun n => ?_⟩
    rw [runAttributeOps, Traced.result_bind, hfind, find?_runAttributeOp op hd, List.foldl_cons]

/-- The deltas for attributes that are there and that a filter accepts. -/
def DeltaSet.admitted (ds : DeltaSet) (f : Filter Attribute) (base : AttributeSet) : DeltaSet :=
  ⟨ds.toList.filter fun d => (base.get? d.name.text).any f.accepts⟩

/-- A merge finds the delta of an attribute among those that its filter lets through. -/
theorem changedInPlace_admitted (ds : DeltaSet) (f : Filter Attribute) {base : AttributeSet}
    (hbase : Distinct base.toList) {a : Attribute} (ha : a ∈ base.toList) :
    changedInPlace (ds.admitted f base) a = mergedAttribute f ds a := by
  have hself : base.get? a.name.text = some a := Keyed.find?_name hbase ha
  have hget : (ds.admitted f base).get? a.name.text =
      (ds.get? a.name.text).filter fun d => (base.get? d.name.text).any f.accepts := by
    refine Keyed.find?_filter (fun d e hde => ?_) ds.toList a.name.text
    have hfound : base.get? d.name.text = base.get? e.name.text := Keyed.find?_congr hde
    rw [hfound]
  rw [changedInPlace, mergedAttribute, hget]
  cases hd : ds.get? a.name.text with
  | none => simp
  | some d =>
    have hfound : base.get? d.name.text = some a := (Keyed.get?_name base hd).trans hself
    rw [Option.filter_some, hfound, Option.any_some]
    cases f.accepts a <;> rfl

theorem newDeltas_admitted (ds : DeltaSet) (f : Filter Attribute) (base : AttributeSet) :
    newDeltas (ds.admitted f base) base = [] := by
  refine List.filter_eq_nil_iff.2 fun d hd => ?_
  have hadmits := (List.mem_filter.1 hd).2
  cases hget : base.get? d.name.text with
  | none => simp [hget] at hadmits
  | some a => simp [Keyed.contains, hget]

theorem applyAttributeOps_merge (f : Filter Attribute) {ds : DeltaSet} {base : AttributeSet}
    (hds : Distinct ds.toList) (hbase : Distinct base.toList) :
    applyAttributeOps [.merge f ds] base = (ds.admitted f base).applyTo base := by
  have hadmitted : Distinct (ds.admitted f base).toList := hds.sublist List.filter_sublist
  have happly : ((ds.admitted f base).applyTo base).toList =
      base.toList.map (mergedAttribute f ds) := by
    rw [toList_applyTo hadmitted hbase, newDeltas_admitted, List.map_nil, List.append_nil]
    exact List.map_congr_left fun a ha => changedInPlace_admitted ds f hbase ha
  have hrun : applyAttributeOps [.merge f ds] base =
      ⟨base.toList.map (mergedAttribute f ds)⟩ :=
    congrArg Keyed.mk (result_run_merge f ds base.toList)
  rw [hrun, ← happly]

/-- Steps over an object make of the attribute of each name what they make of it alone, and keep
names unique. A single merge applies exactly its deltas for attributes that its filter accepts. -/
theorem applyAttributeOps_pointwise (ops : List AttributeOp) (base : AttributeSet)
    (hbase : Distinct base.toList) :
    (∀ n, (applyAttributeOps ops base).get? n =
      ops.foldl (fun found op => op.onNamed n found) (base.get? n)) ∧
    Distinct (applyAttributeOps ops base).toList ∧
    ∀ f (ds : DeltaSet), Distinct ds.toList →
      applyAttributeOps [.merge f ds] base =
        DeltaSet.applyTo ⟨ds.toList.filter fun d => (base.get? d.name.text).any f.accepts⟩
          base := by
  obtain ⟨hdistinct, hfind⟩ := find?_runAttributeOps ops hbase
  exact ⟨hfind, hdistinct, fun f ds hds => applyAttributeOps_merge f hds hbase⟩

def refit : List AttributeOp :=
  [.add [⟨⟨"Seats", by decide⟩, [.integer 8]⟩, ⟨⟨"fax", by decide⟩, [.integer 1]⟩,
      ⟨⟨"FAX", by decide⟩, [.integer 2]⟩],
    .delete (some (.predicate 0 "two kinds" fun a => a.values.length == 2 && a.name.is "seats")),
    .merge (.predicate 1 "filled" fun a => !a.isEmpty) moves]

/-- The office gets its numbers under several spellings, before they are looked at again. -/
theorem refit_pointwise :
    (applyAttributeOps refit office).get? "Seats" = none ∧
    (applyAttributeOps refit office).get? "fAX" = some ⟨⟨"Fax", by decide⟩, []⟩ ∧
    Distinct (applyAttributeOps refit office).toList ∧
    applyAttributeOps [.merge (.attributeNamed 0 "Seats") moves] office =
      DeltaSet.applyTo ⟨[.replace ⟨"SEATS", by decide⟩ [.integer 9]]⟩ office := by
  obtain ⟨hget, hdistinct, hmerge⟩ := applyAttributeOps_pointwise refit office (by decide)
  exact ⟨(hget "Seats").trans rfl, (hget "fAX").trans rfl, hdistinct,
    (hmerge (.attributeNamed 0 "Seats") moves (by decide)).trans rfl⟩

end Provisioning
