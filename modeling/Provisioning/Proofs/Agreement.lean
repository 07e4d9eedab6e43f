import Provisioning.Proofs.Layout
import Provisioning.Proofs.Rejection

/-!
# Changes of values as deltas

Values that are added to an attribute are those that a delta adds, and values that are removed are
those that it deletes one after the other (`applyOps_removals`). So a change and the deltas that say
the same leave the same of every set, in the same places (`AttributeSet.run_asDeltas`), and the same
documents by whichever paths they reach the resource (`Documents.serveChecked_asDeltas`).
-/
namespace Provisioning

open Keyed (Distinct)

/-- The steps that delete what equals one of the given values, one value after the other. The
filters are instances of the given numbers. -/
def removals (id : Nat → Nat) (values : List Value) : List ValueOp :=
  values.mapIdx fun k v => .deleteMatching (.equalTo (id k) v)

/-- The steps that do to an attribute's values what a change does. -/
def UpdateMode.steps (mode : UpdateMode) (id : Nat → Nat) (values : List Value) : List ValueOp :=
  match mode with
  | .add => [.add values]
  | .remove => removals id values

/-- The delta that does to an attribute what a change does. -/
def Attribute.asDelta (mode : UpdateMode) (id : Name → Nat → Nat) (change : Attribute) : Delta :=
  .complex change.name (mode.steps (id change.name) change.values)

/-- The deltas that do what a change does: one for each of its attributes. -/
def AttributeSet.asDeltas (mode : UpdateMode) (id : Name → Nat → Nat) (changes : AttributeSet) :
    DeltaSet :=
  ⟨changes.toList.map (Attribute.asDelta mode id)⟩

/-- Deleting one value after the other leaves what equals none of them. -/
theorem applyOps_removals (id : Nat → Nat) (removed : List Value) {vs : List Value}
    (hremoved : valuesMeet .wellFormed removed = true) (hvs : valuesMeet .wellFormed vs = true) :
    applyOps (removals id removed) vs = vs.filter fun v => !removed.any (· == v) := by
  rw [valuesMeet_iff] at hremoved hvs
  induction removed generalizing id vs with
  | nil => simp [removals]
  | cons r removed ih =>
    -- a removal compares what it removes with a value, the filter the value with what it removes
    have hsymm (v : Value) (hv : v ∈ vs) : (v == r) = (r == v) := by
      have hr := hremoved r List.mem_cons_self
      rw [Bool.eq_iff_iff]
      exact ⟨Value.beq_symm v r (hvs v hv) hr, Value.beq_symm r v hr (hvs v hv)⟩
    have hstep : (ValueOp.run (.deleteMatching (.equalTo (id 0) r)) vs).result =
        vs.filter fun v => !(r == v) := by
      rw [Op.deleteMatching, ValueOp.run, Traced.result_dropWhere]
      refine List.filter_congr fun v hv => ?_
      rw [← hsymm v hv]
      rfl
    have hcons : removals id (r :: removed) =
        .deleteMatching (.equalTo (id 0) r) :: removals (fun k => id (k + 1)) removed := by
      rw [removals, List.mapIdx_cons, removals]
    rw [hcons, applyOps_cons, hstep, ih _ (fun v hv => hremoved v (List.mem_cons_of_mem _ hv))
      fun v hv => hvs v (List.mem_filter.1 hv).1, List.filter_filter]
    refine List.filter_congr fun v _ => ?_
    rw [List.any_cons, Bool.not_or, Bool.and_comm]

/-- The steps for a change append what it adds, or keep what equals nothing that it removes. -/
theorem UpdateMode.applyOps_steps (mode : UpdateMode) (id : Nat → Nat) {c : Attribute}
    {vs : List Value} (hc : c.meets .wellFormed = true) (hvs : valuesMeet .wellFormed vs = true) :
    applyOps (mode.steps id c.values) vs =
      match mode with
      | .add => vs ++ c.values
      | .remove => vs.filter fun v => !c.values.any (· == v) := by
  cases mode with
  | add => rw [UpdateMode.steps, applyOps_cons, applyOps_nil, ValueOp.run, Traced.result_pure]
  | remove =>
    rw [Attribute.meets_iff, ← valuesMeet_iff] at hc
    exact applyOps_removals id c.values hc hvs

namespace AttributeSet

variable {mode : UpdateMode} {id : Name → Nat → Nat} {changes base : AttributeSet}

theorem names_asDeltas : (changes.asDeltas mode id).names = changes.names := by
  rw [Keyed.names, asDeltas, List.map_map]
  rfl

theorem distinct_asDeltas (h : Distinct changes.toList) :
    Distinct (changes.asDeltas mode id).toList :=
  List.Pairwise.map _ (fun _ _ hab => hab) h

theorem get?_asDeltas (n : String) :
    (changes.asDeltas mode id).get? n = (changes.get? n).map (Attribute.asDelta mode id) :=
  List.find?_map

/-- Deltas make the same of the values of a name as the change that they stand for. -/
theorem newValues_asDeltas (hchanges : changes.meets .wellFormed = true) {vs : List Value}
    (hvs : valuesMeet .wellFormed vs = true) (n : String) :
    (Edit.apply (changes.asDeltas mode id)).newValues n vs =
      (Edit.change mode changes).newValues n vs := by
  rw [Edit.newValues, get?_asDeltas]
  cases hget : changes.get? n with
  | none =>
    cases mode with
    | add => rw [Edit.newValues, values_of_get?_eq_none hget, List.append_nil]; rfl
    | remove =>
      rw [Edit.newValues, values_of_get?_eq_none hget]
      exact (List.filter_true vs).symm
  | some c =>
    have hc : c.meets .wellFormed = true :=
      (wellFormed_iff.1 hchanges).2 c (Keyed.mem_of_find? hget)
    have hsteps := UpdateMode.applyOps_steps mode (id c.name) hc hvs
    rw [Option.map_some, Attribute.asDelta]
    dsimp only [Delta.onValues]
    rw [hsteps]
    cases mode <;> rw [Edit.newValues, values_of_get?_eq_some hget]

theorem parts_asDeltas :
    (Edit.apply (changes.asDeltas mode id)).parts = (Edit.change mode changes).parts := by
  show (changes.asDeltas mode id).toList.map Delta.name = changes.toList.map Attribute.name
  rw [asDeltas, List.map_map]
  rfl

/-- Deltas leave what the change that they stand for leaves, in the same places. -/
theorem run_asDeltas (hchanges : changes.meets .wellFormed = true)
    (hbase : base.meets .wellFormed = true) :
    (Edit.apply (changes.asDeltas mode id)).run base = (Edit.change mode changes).run base := by
  obtain ⟨hdistinct, -⟩ := wellFormed_iff.1 hchanges
  obtain ⟨hbasedistinct, hmeet⟩ := wellFormed_iff.1 hbase
  have hdeltas : Distinct (changes.asDeltas mode id).toList := distinct_asDeltas hdistinct
  have hrevised (a : Attribute) (ha : a ∈ base.toList) :
      (Edit.apply (changes.asDeltas mode id)).revised a = (Edit.change mode changes).revised a := by
    have hvalues : valuesMeet .wellFormed a.values = true :=
      valuesMeet_iff.2 (Attribute.meets_iff.1 (hmeet a ha))
    rw [Edit.revised, Edit.revised, parts_asDeltas]
    cases (Edit.change mode changes).parts.find? (·.is a.name.text) with
    | none => rfl
    | some n =>
      dsimp only
      rw [newValues_asDeltas hchanges hvalues]
  have hadded (n : Name) : (Edit.apply (changes.asDeltas mode id)).added base n =
      (Edit.change mode changes).added base n := by
    rw [Edit.added, Edit.added, newValues_asDeltas hchanges rfl]
  refine congrArg Keyed.mk ?_
  show ((Edit.apply (changes.asDeltas mode id)).run base).toList =
    ((Edit.change mode changes).run base).toList
  rw [Edit.toList_run (e := .apply _) hdeltas hbasedistinct,
    Edit.toList_run (e := .change _ _) hdistinct hbasedistinct, List.filterMap_congr hrevised,
    parts_asDeltas, funext hadded]

/-- Added values are written back by an addition as they are by the deltas that say the same. -/
theorem mergeChanges_add_perm (hchanges : changes.meets .wellFormed = true)
    (hbase : base.meets .wellFormed = true) :
    (mergeChanges .add changes base).toList.Perm
      (((changes.asDeltas .add id).applyTo base).restrict changes.names).toList := by
  obtain ⟨hdistinct, -⟩ := wellFormed_iff.1 hchanges
  obtain ⟨hbasedistinct, -⟩ := wellFormed_iff.1 hbase
  have hdeltas : Distinct (changes.asDeltas .add id).toList := distinct_asDeltas hdistinct
  have hvalues (n : Name) : valuesMeet .wellFormed (base.values n.text) = true :=
    valuesMeet_of_get? hbase
  have hreplacement (n : Name) : (Edit.apply (changes.asDeltas .add id)).replacement base n =
      (Edit.change .add changes).replacement base n := by
    rw [Edit.replacement, newValues_asDeltas hchanges (hvalues n), Edit.replacement]
  have hperm := Edit.replacements_perm (e := .change .add changes) hdistinct hbasedistinct
  have hperm' := Edit.replacements_perm (e := .apply (changes.asDeltas .add id)) hdeltas
    hbasedistinct
  rw [parts_asDeltas, funext hreplacement, Edit.replacements, names_asDeltas] at hperm'
  exact hperm.trans hperm'.symm

/-- What a removal writes back of an attribute that is there, and of one that is not. -/
theorem get?_mergeChanges_of_get? (hdistinct : Distinct changes.toList) {n : String}
    {c : Attribute} (hc : changes.get? n = some c) :
    (mergeChanges .remove changes base).get? n =
      (base.get? n).map fun b => ⟨c.name, b.values.filter fun v => !c.values.any (· == v)⟩ := by
  have hfound := Keyed.get?_name base hc
  rw [name_attribute] at hfound
  rw [get?_mergeChanges .remove base hdistinct, hc, Option.bind_some, ← hfound]
  cases hcurrent : base.get? c.name.text <;> simp only [mergeOne, hcurrent, Option.map_none,
    Option.map_some]

/-- A removal writes back exactly the changed attributes that are there. -/
theorem contains_mergeChanges_remove (hdistinct : Distinct changes.toList) (n : String) :
    (mergeChanges .remove changes base).contains n = (changes.contains n && base.contains n) := by
  cases hget : changes.get? n with
  | none =>
    rw [Keyed.contains, get?_mergeChanges .remove base hdistinct, Keyed.contains, hget]
    rfl
  | some c =>
    rw [Keyed.contains, get?_mergeChanges_of_get? hdistinct hget, Option.isSome_map,
      Keyed.contains, Keyed.contains, hget]
    rfl

/-- A removal writes back of them what the deltas that say the same make. -/
theorem get?_mergeChanges_remove (hchanges : changes.meets .wellFormed = true)
    (hbase : base.meets .wellFormed = true) {n : String} (hn : changes.contains n = true)
    (hcontains : base.contains n = true) :
    (mergeChanges .remove changes base).get? n =
      ((changes.asDeltas .remove id).applyTo base).get? n := by
  obtain ⟨hdistinct, hmeet⟩ := wellFormed_iff.1 hchanges
  obtain ⟨c, hc⟩ := Option.isSome_iff_exists.1 hn
  obtain ⟨b, hb⟩ := Option.isSome_iff_exists.1 hcontains
  have hvalues := valuesMeet_of_get? hbase (n := n)
  rw [hb] at hvalues
  have hsteps := UpdateMode.applyOps_steps .remove (id c.name)
    (hmeet c (Keyed.mem_of_find? hc)) hvalues
  rw [get?_mergeChanges_of_get? hdistinct hc, get?_applyTo (distinct_asDeltas hdistinct),
    get?_asDeltas, hc, hb, Option.map_some, Option.map_some, Attribute.asDelta]
  dsimp only
  rw [applyTo_complex, hsteps]
  rfl

end AttributeSet

/-- Edits that leave the same of what can be read succeed on the same objects and leave the same
documents. -/
theorem Documents.left_serveEdit_eq {docs : Documents} {cls : ObjectClass} {uid : Uid}
    {e e' : Edit} (h : ∀ s, docs.read cls uid = .ok s → e.run s = e'.run s) :
    (docs.serveEdit cls uid e).isOk = (docs.serveEdit cls uid e').isOk ∧
      docs.left (docs.serveEdit cls uid e) = docs.left (docs.serveEdit cls uid e') := by
  cases hread : docs.read cls uid with
  | error err =>
    rw [serveEdit_of_error hread, serveEdit_of_error hread]
    exact ⟨rfl, rfl⟩
  | ok s =>
    rw [serveEdit_of_ok hread, serveEdit_of_ok hread, h s hread]
    exact ⟨rfl, rfl⟩

/-- A change of values that are not operational is let pass and served as its deltas are. -/
theorem Documents.serveChecked_asDeltas {changes : AttributeSet} {config : Config}
    (hchanges : changes.meets .wellFormed = true)
    (hfree : ∀ n ∈ changes.names, config.isOperational n = false) (docs : Documents)
    (mode : UpdateMode) (id : Name → Nat → Nat) (cls : ObjectClass) (uid : Uid)
    (options options' : Options) (config' : Config) (fresh fresh' : Uid) :
    let r := docs.serveChecked config fresh (.changeValues mode cls uid changes options)
    let r' := docs.serveChecked config' fresh'
      (.updateDelta cls uid (changes.asDeltas mode id) options')
    r.isOk = r'.isOk ∧ docs.left r = docs.left r' := by
  have hcheck := Blames.check config (.changeValues mode cls uid changes options)
  have hcheck' := Blames.check config' (.updateDelta cls uid (changes.asDeltas mode id) options')
  have hbarred : (Invocation.changeValues mode cls uid changes options).Barred config ↔
      (Invocation.updateDelta cls uid (changes.asDeltas mode id) options').Barred config' := by
    have hnone : ¬ ∃ n ∈ changes.names, config.isOperational n = true := by
      rintro ⟨n, hn, hop⟩
      rw [hfree n hn] at hop
      cases hop
    rw [Invocation.Barred, Invocation.Barred, AttributeSet.names_asDeltas]
    exact or_congr_right (or_iff_left hnone)
  intro r r'
  by_cases h : (Invocation.changeValues mode cls uid changes options).Barred config
  · obtain ⟨fault, hfault⟩ := hcheck.refused h
    obtain ⟨fault', hfault'⟩ := hcheck'.refused (hbarred.1 h)
    have hr : r = .error (.invalidArgument fault) := by
      show config.check _ >>= _ = _
      rw [hfault]
      rfl
    have hr' : r' = .error (.invalidArgument fault') := by
      show config'.check _ >>= _ = _
      rw [hfault']
      rfl
    rw [hr, hr']
    exact ⟨rfl, rfl⟩
  · have hr : r = docs.serveEdit cls uid (.change mode changes) := by
      show config.check _ >>= _ = _
      rw [hcheck.passed h]
      rfl
    have hr' : r' = docs.serveEdit cls uid (.apply (changes.asDeltas mode id)) := by
      show config'.check _ >>= _ = _
      rw [hcheck'.passed fun h' => h (hbarred.2 h')]
      rfl
    rw [hr, hr']
    refine left_serveEdit_eq fun s hs => ?_
    exact (AttributeSet.run_asDeltas hchanges (isReadSet_of_read hs).wellFormed).symm

namespace Memory

variable {α : Type} {m m' : Memory} {o o' : Outcome Memory α}
  {r r' : Except Error (α × Documents)}

theorem Serves.answers_of_ok {opened : Prop} {a : α} (h : Serves opened m o r)
    (hok : o.result = .ok a) : Answers m o r := by
  rcases h with h | ⟨-, ⟨e, he, -⟩, -⟩
  · exact h
  · rw [hok] at he
    cases he

/-- Outcomes of which the answers leave the same documents succeed alike and leave the same. -/
theorem Answers.agree (h : Answers m o r) (h' : Answers m' o' r')
    (hdocuments : m.documents = m'.documents)
    (hsame : r.isOk = r'.isOk ∧ m.documents.left r = m.documents.left r') :
    o.result.isOk = o'.result.isOk ∧ o.state.documents = o'.state.documents := by
  have hmap (x : Except Error (α × Documents)) : (x.map Prod.fst).isOk = x.isOk := by
    cases x <;> rfl
  refine ⟨?_, ?_⟩
  · rw [h.result, h'.result, hmap, hmap]
    exact hsame.1
  · rw [h.documents, h'.documents, ← hdocuments]
    exact hsame.2

end Memory

open Memory (facade Reaches)

/-- Changes of values and the deltas that say the same agree: an addition writes back the same
attributes, a removal the same of those that are there, and both leave the same documents, by
whichever paths they reach the resource. -/
theorem changes_agree_with_deltas (changes : AttributeSet) (id : Name → Nat → Nat)
    (hchanges : changes.meets .wellFormed = true) :
    (∀ base : AttributeSet, base.meets .wellFormed = true →
      (mergeChanges .add changes base).toList.Perm
        (((changes.asDeltas .add id).applyTo base).restrict changes.names).toList ∧
      ∀ n, (mergeChanges .remove changes base).contains n =
          (changes.contains n && base.contains n) ∧
        (changes.contains n = true → base.contains n = true →
          (mergeChanges .remove changes base).get? n =
            ((changes.asDeltas .remove id).applyTo base).get? n)) ∧
    ∀ (mode : UpdateMode) (cls : ObjectClass) (uid : Uid) (options options' : Options)
      (capabilities capabilities' : Capabilities) (fresh fresh' : Nat → Uid)
      (config config' : Config) (m m' : Memory), m.documents = m'.documents →
      (∀ n ∈ changes.names, config.isOperational n = false) →
      let r := .changeValues mode cls uid changes options
      let r' := .updateDelta cls uid (changes.asDeltas mode id) options'
      let o := (facade capabilities fresh config).perform r m
      let o' := (facade capabilities' fresh' config').perform r' m'
      (Reaches capabilities config m r → Reaches capabilities' config' m' r' →
        o.result.isOk = o'.result.isOk ∧ o.state.documents = o'.state.documents) ∧
      (∀ reply reply', o.result = .ok reply → o'.result = .ok reply' →
        o.state.documents = o'.state.documents) := by
  obtain ⟨hdistinct, -⟩ := AttributeSet.wellFormed_iff.1 hchanges
  refine ⟨fun base hbase => ⟨AttributeSet.mergeChanges_add_perm hchanges hbase, fun n =>
    ⟨AttributeSet.contains_mergeChanges_remove hdistinct n,
      AttributeSet.get?_mergeChanges_remove hchanges hbase⟩⟩, ?_⟩
  intro mode cls uid options options' capabilities capabilities' fresh fresh' config config' m m'
    hdocuments hfree r r' o o'
  have hserves := Memory.facade_serves capabilities fresh config m r
  have hserves' := Memory.facade_serves capabilities' fresh' config' m' r'
  have hsame := Documents.serveChecked_asDeltas hchanges hfree m.documents mode id cls uid options
    options' config' (fresh m.generated) (fresh' m'.generated)
  rw [← hdocuments] at hserves'
  refine ⟨fun hreaches hreaches' => ?_, fun reply reply' hok hok' => ?_⟩
  · exact (hserves.answers hreaches).agree (hserves'.answers hreaches') hdocuments hsame
  · exact ((hserves.answers_of_ok hok).agree (hserves'.answers_of_ok hok') hdocuments hsame).2

def noHome : AttributeSet := ⟨[⟨⟨"Mail", by decide⟩, [.string "bob@home"]⟩]⟩

def noHomeDeltas : DeltaSet := noHome.asDeltas .remove fun _ k => k

/-- An address is taken away by its value, by way of a replacement, and by a delta that the resource
applies itself. -/
theorem noHome_agrees_with_deltas :
    (mergeChanges .add noHome (Memory.mail ["bob@work"])).toList.Perm
      (((noHome.asDeltas .add fun _ k => k).applyTo (Memory.mail ["bob@work"])).restrict
        ["Mail"]).toList ∧
    (mergeChanges .remove noHome (Memory.mail ["bob@home", "bob@work"])).get? "mail" =
      (noHomeDeltas.applyTo (Memory.mail ["bob@home", "bob@work"])).get? "mail" ∧
    (mergeChanges .remove noHome (Memory.mail ["bob@home", "bob@work"])).contains "fax" = false ∧
    let o := (facade .replaceOnly (fun _ => Memory.bob) .default).perform
      (.changeValues .remove .account Memory.bob noHome .default)
      (Memory.withMail ["bob@home", "bob@work"])
    let o' := (facade .full (fun _ => Memory.bob) .default).perform
      (.updateDelta .account Memory.bob noHomeDeltas .default)
      (Memory.withMail ["bob@home", "bob@work"])
    o'.result.isOk = true ∧ o.result.isOk = o'.result.isOk ∧
      o.state.documents = o'.state.documents := by
  obtain ⟨hsets, hdocuments⟩ := changes_agree_with_deltas noHome (fun _ k => k) (by decide)
  refine ⟨(hsets (Memory.mail ["bob@work"]) (by decide)).1,
    ((hsets (Memory.mail ["bob@home", "bob@work"]) (by decide)).2 "mail").2 rfl rfl,
    ((hsets (Memory.mail ["bob@home", "bob@work"]) (by decide)).2 "fax").1, ?_⟩
  obtain ⟨hreaches, hok⟩ := hdocuments .remove .account Memory.bob .default .default .replaceOnly
    .full (fun _ => Memory.bob) (fun _ => Memory.bob) .default .default
    (Memory.withMail ["bob@home", "bob@work"]) (Memory.withMail ["bob@home", "bob@work"]) rfl
    (by decide)
  exact ⟨rfl, (hreaches ⟨⟨by decide, rfl⟩, ⟨by decide, rfl⟩⟩ ⟨by decide, rfl⟩).1,
    hok _ _ rfl rfl⟩

end Provisioning
