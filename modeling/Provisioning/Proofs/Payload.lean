import Provisioning.Proofs.Equality
import Provisioning.Proofs.Exchange

/-!
# Payloads of a reconciliation

What is written back has one attribute for each name of the edit, in the edit's spelling, with the
values that the edit makes of those looked up under that name; only a removal leaves out names that
were not there (`replacements_perm`). So two look-ups that agree on the values of these names lead
to the same payload, whatever else they return.
-/
namespace Provisioning

open Keyed (Distinct)

variable {σ τ : Type}

/-- Where no name repeats, lists in which every name finds the same have the same items. -/
theorem perm_of_find?_eq {α : Type} [HasName α] {as bs : List α} (has : Distinct as)
    (hbs : Distinct bs) (h : ∀ n, Keyed.find? as n = Keyed.find? bs n) : as.Perm bs := by
  have hnodup {items : List α} (hd : Distinct items) : items.Nodup :=
    List.Pairwise.imp (fun hkeys heq => hkeys (congrArg HasName.key heq)) hd
  refine (List.perm_ext_iff_of_nodup (hnodup has) (hnodup hbs)).2 fun a => ?_
  constructor
  · intro ha
    have hfind := Keyed.find?_name has ha
    rw [h] at hfind
    exact Keyed.mem_of_find? hfind
  · intro ha
    have hfind := Keyed.find?_name hbs ha
    rw [← h] at hfind
    exact Keyed.mem_of_find? hfind

namespace Edit

/-- The names in an edit. -/
def parts : Edit → List Name
  | .replace as => as.toList.map Attribute.name
  | .change _ vs => vs.toList.map Attribute.name
  | .apply ds => ds.toList.map Delta.name

theorem names_eq_map_parts (e : Edit) : e.names = e.parts.map Name.text := by
  cases e <;> simp only [names, parts, Keyed.names, List.map_map] <;> rfl

/-- Whether an edit writes a name back: a removal does so only if there is such an attribute. -/
def needs (base : AttributeSet) (n : String) : Edit → Bool
  | .change .remove _ => base.contains n
  | _ => true

/-- The attribute that is written back for a name of an edit. -/
def replacement (e : Edit) (base : AttributeSet) (n : Name) : Attribute :=
  ⟨n, e.newValues n.text (base.values n.text)⟩

theorem mergeOne_eq {mode : UpdateMode} {changes : AttributeSet}
    (hd : Keyed.Distinct changes.toList) (base : AttributeSet) {c : Attribute}
    (hc : c ∈ changes.toList) :
    mergeOne mode base c =
      if (change mode changes).needs base c.name.text then
        some ((change mode changes).replacement base c.name)
      else none := by
  have hvalues : changes.values c.name.text = c.values :=
    values_of_get?_eq_some (Keyed.find?_name hd hc)
  obtain ⟨n, vs⟩ := c
  cases hbase : base.get? n.text with
  | none =>
    cases mode <;>
      simp [mergeOne, needs, replacement, newValues, Keyed.contains, hbase, hvalues,
        values_of_get?_eq_none hbase]
  | some b =>
    cases mode <;>
      simp [mergeOne, needs, replacement, newValues, Keyed.contains, hbase, hvalues,
        values_of_get?_eq_some hbase]

theorem applyTo_eq_replacement {ds : DeltaSet} (hd : Keyed.Distinct ds.toList)
    (base : AttributeSet) {d : Delta} (h : d ∈ ds.toList) :
    d.applyTo (base.get? d.name.text) = (apply ds).replacement base d.name := by
  have hfind : ds.get? d.name.text = some d := Keyed.find?_name hd h
  have hvalues : (apply ds).newValues d.name.text (base.values d.name.text) =
      d.onValues (base.values d.name.text) := by
    simp only [newValues, hfind]
  rw [replacement, hvalues]
  cases d with
  | complex n ops => exact applyTo_complex n ops _
  | replace n vs => exact applyTo_replace n vs _

/-- Deltas write back what they make of the attributes that they name. -/
theorem replacements_apply_perm {ds : DeltaSet} (hd : Keyed.Distinct ds.toList)
    {base : AttributeSet} (hbase : Keyed.Distinct base.toList) :
    ((apply ds).replacements base).toList.Perm (deltaResults ds.toList base) := by
  -- the order is that of the base, then that of the deltas for new names, so look-ups are compared
  refine perm_of_find?_eq (distinct_replacements (e := apply ds) hd hbase)
    (distinct_deltaResults hd base) fun n => ?_
  rw [find?_deltaResults]
  cases hn : (apply ds).mentions n with
  | false =>
    have hnone : Keyed.find? ds.toList n = none := by
      rw [← Option.not_isSome_iff_eq_none]
      intro hsome
      obtain ⟨d, hfind⟩ := Option.isSome_iff_exists.1 hsome
      obtain ⟨m, hm, hmn⟩ := (mem_names_iff ds n).2 ⟨d, hfind⟩
      have hmentions : (apply ds).mentions n = true := (mentions_iff _ n).2 ⟨m, hm, hmn⟩
      rw [hn] at hmentions
      cases hmentions
    rw [hnone]
    exact get?_replacements_of_not_mentions hn base
  | true =>
    obtain ⟨m, hm, hmn⟩ := (mentions_iff _ n).1 hn
    have hrestrict : ((ds.applyTo base).restrict ds.names).get? n = (ds.applyTo base).get? n :=
      Keyed.get?_restrict_of_mem _ hm hmn
    obtain ⟨d, hfind⟩ := (mem_names_iff ds n).1 ⟨m, hm, hmn⟩
    rw [get?_applyTo hd, hfind] at hrestrict
    rw [← Keyed.get?_eq_find? ds, hfind]
    exact hrestrict

/-- One attribute is written back for each name that needs it, and nothing else. -/
theorem replacements_perm {e : Edit} (he : e.Distinct) {base : AttributeSet}
    (hbase : Keyed.Distinct base.toList) :
    (e.replacements base).toList.Perm
      ((e.parts.filter fun n => e.needs base n.text).map (e.replacement base)) := by
  cases e with
  | replace as =>
    have hsame (a : Attribute) (ha : a ∈ as.toList) :
        (replace as).replacement base a.name = a := by
      have hvalues : as.values a.name.text = a.values :=
        values_of_get?_eq_some (Keyed.find?_name he ha)
      rw [replacement, newValues, hvalues]
      cases a
      rfl
    have hmap := List.map_congr_left hsame
    rw [List.map_id'] at hmap
    simp only [parts, needs, List.filter_true, List.map_map]
    exact .of_eq hmap.symm
  | change mode changes =>
    have hmerged : (mergeChanges mode changes base).toList = _ :=
      List.filterMap_congr fun c hc => mergeOne_eq he base hc
    simp only [parts, List.filter_map, List.map_map]
    rw [← List.filterMap_eq_map, List.filterMap_filter]
    exact .of_eq hmerged
  | apply ds =>
    have hresults : deltaResults ds.toList base =
        ds.toList.map fun d => (apply ds).replacement base d.name :=
      List.map_congr_left fun d hd => applyTo_eq_replacement he base hd
    have hperm := replacements_apply_perm he hbase
    rw [hresults] at hperm
    simp only [parts, needs, List.filter_true, List.map_map]
    exact hperm

/-- How the payloads of an edit from two look-ups relate to each other and to the first of them:
the same attributes, one for each name that needs it, with the values that the edit makes of those
looked up, even if these are none. -/
structure Confined (e : Edit) (base payload payload' : AttributeSet) : Prop where
  same : payload.toList.Perm payload'.toList
  names : payload.names.Perm (e.names.filter fun n => e.needs base n)
  values : ∀ n ∈ e.names, e.needs base n = true →
    ∃ a ∈ payload.toList, a.name.text = n ∧ a.values = e.newValues n (base.values n)

/-- Payloads depend on what was looked up under the names of the edit, and on nothing else. -/
theorem confined_replacements {e : Edit} (he : e.Distinct) {base base' : AttributeSet}
    (hbase : Keyed.Distinct base.toList) (hbase' : Keyed.Distinct base'.toList)
    (hsame : ∀ n ∈ e.names,
      (base.get? n).map Attribute.values = (base'.get? n).map Attribute.values) :
    e.Confined base (e.replacements base) (e.replacements base') := by
  have hperm := replacements_perm he hbase
  have hperm' := replacements_perm he hbase'
  have hmem (n : Name) (hn : n ∈ e.parts) : n.text ∈ e.names := by
    rw [names_eq_map_parts]
    exact List.mem_map_of_mem hn
  have hneeds (n : Name) (hn : n ∈ e.parts) : e.needs base n.text = e.needs base' n.text := by
    have hcontains : base.contains n.text = base'.contains n.text := by
      have hsome := congrArg Option.isSome (hsame n.text (hmem n hn))
      rw [Option.isSome_map, Option.isSome_map] at hsome
      exact hsome
    unfold needs
    rw [hcontains]
  have hreplacement (n : Name) (hn : n ∈ e.parts) :
      e.replacement base n = e.replacement base' n := by
    have hvalues : base.values n.text = base'.values n.text :=
      congrArg (fun vs => vs.getD []) (hsame n.text (hmem n hn))
    rw [replacement, replacement, hvalues]
  have hparts : (e.parts.filter fun n => e.needs base n.text).map (e.replacement base) =
      (e.parts.filter fun n => e.needs base' n.text).map (e.replacement base') := by
    rw [← List.filter_congr hneeds]
    exact List.map_congr_left fun n hn => hreplacement n (List.mem_filter.1 hn).1
  refine ⟨?_, ?_, ?_⟩
  · rw [← hparts] at hperm'
    exact hperm.trans hperm'.symm
  · have hnames := hperm.map fun a => a.name.text
    rw [List.map_map] at hnames
    rw [names_eq_map_parts, List.filter_map]
    exact hnames
  · intro n hn hneed
    rw [names_eq_map_parts] at hn
    obtain ⟨m, hm, rfl⟩ := List.mem_map.1 hn
    have hwritten : e.replacement base m ∈ (e.replacements base).toList :=
      hperm.mem_iff.2 (List.mem_map_of_mem (List.mem_filter.2 ⟨hm, hneed⟩))
    exact ⟨e.replacement base m, hwritten, rfl, rfl⟩

end Edit

/-- The attributes that updates among some calls replace. -/
def payloads (calls : List Invocation) : List AttributeSet :=
  calls.filterMap fun call =>
    match call with
    | .update _ _ attributes _ => some attributes
    | _ => none

/-- A connector that offers look-ups and updates, and finds an object when asked for some names. -/
structure Finds (c : Connector σ) (cls : ObjectClass) (uid : Uid) (names : List String)
    (options : Options) (s : σ) (found : Record) : Prop where
  search : c.capabilities.supports .search = true
  update : c.capabilities.supports .update = true
  found : (c.getObject cls uid (options.asking names) s).result = .ok (some found)

section

variable {c : Connector σ} {cls : ObjectClass} {uid : Uid} {names : List String}
  {options : Options} {s : σ} {found : Record} {payload : AttributeSet → AttributeSet}

/-- Once the object is found, exactly one payload is written. -/
theorem WritesBack.payloads_eq {calls : List Invocation} {result : Except Error Uid} {s' : σ}
    (h : WritesBack c cls uid names options payload s calls result s')
    (hfinds : Finds c cls uid names options s found) :
    payloads calls = [payload found.attributes] := by
  have hfound := hfinds.found
  cases h with
  | noSearch hsearch =>
    have hoffered := hfinds.search
    rw [hsearch] at hoffered
    cases hoffered
  | noUpdate _ hupdate =>
    have hoffered := hfinds.update
    rw [hupdate] at hoffered
    cases hoffered
  | failed _ _ hget =>
    rw [hget] at hfound
    cases hfound
  | absent _ _ hget =>
    rw [hget] at hfound
    cases hfound
  | replaced _ _ hget =>
    rw [hget] at hfound
    cases hfound
    rfl

theorem payloads_reconcile {mode : UpdateMode} {changes : AttributeSet}
    (hnative : c.capabilities.supports .updateAttributeValues = false)
    (hfinds : Finds c cls uid changes.names options s found) :
    payloads (reconcile c.observed cls uid changes mode options ⟨s, []⟩).state.calls =
      [(Edit.change mode changes).replacements found.attributes] := by
  obtain ⟨calls, hcalls, hways⟩ := calls_reconcile c cls uid options mode changes s []
  rw [hnative] at hways
  rw [hcalls, List.nil_append]
  exact WritesBack.payloads_eq hways hfinds

theorem payloads_reconcileDeltas {deltas : DeltaSet}
    (hfinds : Finds c cls uid deltas.names options s found) :
    payloads (reconcileDeltas c.observed cls uid deltas options ⟨s, []⟩).state.calls =
      [(Edit.apply deltas).replacements found.attributes] := by
  obtain ⟨calls, _, hcalls, -, hways⟩ := calls_reconcileDeltas c cls uid options deltas s []
  rw [hcalls, List.nil_append]
  exact WritesBack.payloads_eq hways hfinds

end

/-- If two look-ups agree on the values of the names that are changed, whatever else they return,
then one payload is written after either, and both have the same attributes: one for each of the
names, as the change or the delta spells it, except that a removal leaves out what was not there. -/
theorem payloads_confined (c : Connector σ) (d : Connector τ) (cls : ObjectClass) (uid : Uid)
    (options : Options) (s : σ) (t : τ) (found found' : Record)
    (hfound : Distinct found.attributes.toList) (hfound' : Distinct found'.attributes.toList) :
    (∀ (changes : AttributeSet) (mode : UpdateMode), Distinct changes.toList →
      c.capabilities.supports .updateAttributeValues = false →
      d.capabilities.supports .updateAttributeValues = false →
      Finds c cls uid changes.names options s found →
      Finds d cls uid changes.names options t found' →
      (∀ n ∈ changes.names, (found.attributes.get? n).map Attribute.values =
        (found'.attributes.get? n).map Attribute.values) →
      ∃ p q,
        payloads (reconcile c.observed cls uid changes mode options ⟨s, []⟩).state.calls = [p] ∧
        payloads (reconcile d.observed cls uid changes mode options ⟨t, []⟩).state.calls = [q] ∧
        (Edit.change mode changes).Confined found.attributes p q) ∧
    ∀ deltas : DeltaSet, Distinct deltas.toList →
      Finds c cls uid deltas.names options s found →
      Finds d cls uid deltas.names options t found' →
      (∀ n ∈ deltas.names, (found.attributes.get? n).map Attribute.values =
        (found'.attributes.get? n).map Attribute.values) →
      ∃ p q,
        payloads (reconcileDeltas c.observed cls uid deltas options ⟨s, []⟩).state.calls = [p] ∧
        payloads (reconcileDeltas d.observed cls uid deltas options ⟨t, []⟩).state.calls = [q] ∧
        (Edit.apply deltas).Confined found.attributes p q := by
  constructor
  · intro changes mode hchanges hnative hnative' hfinds hfinds' hsame
    have hconfined := Edit.confined_replacements (e := .change mode changes) hchanges hfound
      hfound' hsame
    exact ⟨_, _, payloads_reconcile hnative hfinds, payloads_reconcile hnative' hfinds', hconfined⟩
  · intro deltas hdeltas hfinds hfinds' hsame
    have hconfined := Edit.confined_replacements (e := .apply deltas) hdeltas hfound hfound' hsame
    exact ⟨_, _, payloads_reconcileDeltas hfinds, payloads_reconcileDeltas hfinds', hconfined⟩

/-- A resource that finds the given attributes, whichever are asked for. -/
def finding (attributes : AttributeSet) : Connector Unit where
  capabilities := .replaceOnly
  update _ uid _ _ := pure uid
  getObject cls uid _ := pure (some ⟨cls, uid, attributes⟩)

def stranger : AttributeSet :=
  ⟨[⟨⟨"title", by decide⟩, [.string "guest"]⟩, ⟨⟨"Email", by decide⟩, [.string "ann@work"]⟩]⟩

def emailGone : AttributeSet := ⟨[⟨⟨"EMAIL", by decide⟩, [.string "ann@work"]⟩]⟩

def emailCleared : DeltaSet := ⟨[.complex ⟨"EMAIL", by decide⟩ [.deleteAll]]⟩

theorem finding_finds (attributes : AttributeSet) (cls : ObjectClass) (uid : Uid)
    (names : List String) (options : Options) :
    Finds (finding attributes) cls uid names options () ⟨cls, uid, attributes⟩ :=
  ⟨rfl, rfl, rfl⟩

/-- Two look-ups of a member agree on the e-mail alone, which is then removed, or cleared by a
delta. -/
theorem payloads_of_emailGone :
    (∃ p q,
      payloads (reconcile (finding member).observed .account Memory.bob emailGone .remove .default
        ⟨(), []⟩).state.calls = [p] ∧
      payloads (reconcile (finding stranger).observed .account Memory.bob emailGone .remove .default
        ⟨(), []⟩).state.calls = [q] ∧
      p.toList.Perm q.toList ∧ p.names.Perm ["EMAIL"] ∧ ∃ a ∈ p.toList, a.values = []) ∧
    ∃ p q,
      payloads (reconcileDeltas (finding member).observed .account Memory.bob emailCleared
        .default ⟨(), []⟩).state.calls = [p] ∧
      payloads (reconcileDeltas (finding stranger).observed .account Memory.bob emailCleared
        .default ⟨(), []⟩).state.calls = [q] ∧
      p.toList.Perm q.toList ∧ p.names.Perm ["EMAIL"] ∧ ∃ a ∈ p.toList, a.values = [] := by
  have hsame : ∀ n ∈ ["EMAIL"],
      (member.get? n).map Attribute.values = (stranger.get? n).map Attribute.values := by
    simp only [List.forall_mem_singleton]
    rfl
  obtain ⟨hchange, hdeltas⟩ := payloads_confined (finding member) (finding stranger) .account
    Memory.bob .default () () ⟨.account, Memory.bob, member⟩ ⟨.account, Memory.bob, stranger⟩
    (by decide) (by decide)
  obtain ⟨p, q, hp, hq, hconfined⟩ := hchange emailGone .remove (by decide) rfl rfl
    (finding_finds ..) (finding_finds ..) hsame
  obtain ⟨p', q', hp', hq', hconfined'⟩ := hdeltas emailCleared (by decide)
    (finding_finds ..) (finding_finds ..) hsame
  obtain ⟨a, ha, -, hvalues⟩ := hconfined.values "EMAIL" (by decide) (by decide)
  obtain ⟨b, hb, -, hvalues'⟩ := hconfined'.values "EMAIL" (by decide) (by decide)
  have hempty : a.values.isEmpty = true := by
    rw [hvalues]
    decide +kernel
  refine ⟨⟨p, q, hp, hq, hconfined.same, hconfined.names, a, ha, List.isEmpty_iff.1 hempty⟩,
    p', q', hp', hq', hconfined'.same, hconfined'.names, b, hb, hvalues'⟩

end Provisioning
