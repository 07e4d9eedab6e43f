import Provisioning.Proofs.Writes

/-!
# Names stay unique

A set of attributes is well formed if no two of them share a name, up to case, and if the same holds
of every object embedded in them, at any depth. That no name is blank is in the type of names. Every
operation on well-formed sets leaves well-formed sets, also those that give attributes the spelling
of a delta or of a change, and so does every connector call that edits an object
(`wellFormed_of_operations`).
-/
namespace Provisioning

open Keyed (Distinct)

variable {c : Condition}

theorem AttributeSet.wellFormed_iff {s : AttributeSet} :
    s.meets .wellFormed = true ↔
      Distinct s.toList ∧ ∀ a ∈ s.toList, a.meets .wellFormed = true := by
  rw [AttributeSet.meets_iff]
  exact and_congr_left fun _ => decide_eq_true_iff

/-- The constructor accepts no name twice. -/
theorem AttributeSet.wellFormed_of_of? {as : List Attribute} {s : AttributeSet}
    (h : AttributeSet.of? as = .ok s) (has : attributesMeet .wellFormed as = true) :
    s.meets .wellFormed = true := by
  have hlist : Keyed.ofList? as = .ok s := of_mapError_ok h
  obtain ⟨rfl, hdistinct⟩ := Keyed.ofList?_eq_ok_iff.1 hlist
  exact wellFormed_iff.2 ⟨hdistinct, attributesMeet_iff.1 has⟩

/-- A set without some of its attributes meets the conditions that it met with them. -/
theorem AttributeSet.meets_of_sublist {s : AttributeSet} {as : List Attribute}
    (has : as.Sublist s.toList) (hs : s.meets c = true) : AttributeSet.meets c ⟨as⟩ = true := by
  rw [AttributeSet.meets_iff] at *
  exact ⟨c.sublist _ _ has hs.1, fun a ha => hs.2 a (has.subset ha)⟩

theorem AttributeSet.meets_erase {s : AttributeSet} (hs : s.meets c = true) (n : String) :
    AttributeSet.meets c (s.erase n) = true :=
  meets_of_sublist List.eraseP_sublist hs

theorem AttributeSet.meets_restrict {s : AttributeSet} (hs : s.meets c = true)
    (ns : List String) : AttributeSet.meets c (s.restrict ns) = true :=
  meets_of_sublist List.filter_sublist hs

theorem wellFormed_mergeChanges (mode : UpdateMode) {changes base : AttributeSet}
    (hchanges : changes.meets .wellFormed = true) (hbase : base.meets .wellFormed = true) :
    (mergeChanges mode changes base).meets .wellFormed = true := by
  rw [AttributeSet.wellFormed_iff] at hchanges
  refine AttributeSet.wellFormed_iff.2 ⟨distinct_mergeChanges mode base hchanges.1, ?_⟩
  intro a ha
  obtain ⟨change, hmem, hmerge⟩ := List.mem_filterMap.1 ha
  exact meets_mergeOne hbase (hchanges.2 change hmem) hmerge

theorem meets_applyTo {ds : DeltaSet} {base : AttributeSet}
    (hds : deltasMeet c ds.toList = true) (hbase : base.meets c = true) :
    (ds.applyTo base).meets c = true :=
  meets_runDeltas ds.toList base base hds hbase hbase

/-- What becomes of an attribute when it is folded into a list: its values go to its namesake, if
there is one. -/
def folded (current : List Attribute) (a : Attribute) : Attribute :=
  match Keyed.find? current a.name.text with
  | some b => ⟨b.name, b.values ++ a.values⟩
  | none => a

theorem key_folded (current : List Attribute) (a : Attribute) :
    HasName.key (folded current a) = HasName.key a := by
  cases h : Keyed.find? current a.name.text with
  | none => simp only [folded, h]
  | some b =>
    have hb : HasName.key b = HasName.key a := Keyed.key_of_find? h
    simp only [folded, h, ← hb, key_attribute]

theorem meets_folded {current : List Attribute} {a : Attribute}
    (hcurrent : attributesMeet c current = true) (ha : a.meets c = true) :
    (folded current a).meets c = true := by
  unfold folded
  cases h : Keyed.find? current a.name.text with
  | none => exact ha
  | some b =>
    have hb : b.meets c = true := attributesMeet_iff.1 hcurrent b (Keyed.mem_of_find? h)
    rw [Attribute.meets_iff, ← valuesMeet_iff] at ha hb
    rw [Attribute.meets]
    exact valuesMeet_append hb ha

/-- Folding an attribute in puts what becomes of it at the place of its namesake. -/
theorem foldIn_eq_putList (current : List Attribute) (a : Attribute) :
    foldIn current a = Keyed.putList (folded current a) current := by
  induction current with
  | nil => rfl
  | cons b rest ih =>
    have hname : b.name.is a.name.text = true ↔ HasName.key b = HasName.key a :=
      HasName.is_name_iff b a
    by_cases hb : HasName.key b = HasName.key a
    · have hfolded : folded (b :: rest) a = ⟨b.name, b.values ++ a.values⟩ := by
        rw [folded, Keyed.find?_cons, if_pos (hb.trans (key_attribute a))]
      rw [foldIn, if_pos (hname.2 hb), Keyed.putList_cons, key_folded, if_pos hb, hfolded]
    · have hfolded : folded (b :: rest) a = folded rest a := by
        have hne : HasName.key b ≠ Text.fold a.name.text := hb
        rw [folded, Keyed.find?_cons, if_neg hne, folded]
      rw [foldIn, if_neg fun h => hb (hname.1 h), Keyed.putList_cons, key_folded, if_neg hb,
        hfolded, ih]

/-- What a merge makes of an attribute that its filter accepts, or leaves of another one. -/
def mergedAttribute (f : Filter Attribute) (ds : DeltaSet) (a : Attribute) : Attribute :=
  if f.accepts a then ((ds.get? a.name.text).map fun d => d.applyTo (some a)).getD a else a

theorem result_run_merge (f : Filter Attribute) (ds : DeltaSet) (current : List Attribute) :
    (AttributeOp.run (.merge f ds) current).result = current.map (mergedAttribute f ds) := by
  rw [AttributeOp.run, Traced.result_mapList]
  refine List.map_congr_left fun a _ => ?_
  rw [Traced.result_bind, mergedAttribute]
  show (if f.accepts a = true then _ else _ : Traced Attribute).result = _
  split
  · cases ds.get? a.name.text <;> rfl
  · rfl

/-- A merge may respell a name, but keeps it. -/
theorem key_mergedAttribute (f : Filter Attribute) (ds : DeltaSet) (a : Attribute) :
    HasName.key (mergedAttribute f ds a) = HasName.key a := by
  unfold mergedAttribute
  split
  · cases h : ds.get? a.name.text with
    | none => rfl
    | some d => exact (key_applyTo d (some a)).trans (Keyed.key_of_find? h)
  · rfl

theorem distinct_foldIn {current : List Attribute} (hd : Distinct current) (a : Attribute) :
    Distinct (foldIn current a) := by
  rw [foldIn_eq_putList]
  exact Keyed.distinct_putList _ hd

/-- A step leaves no name twice, whatever it adds, deletes or merges. -/
theorem distinct_runAttributeOp (op : AttributeOp) {current : List Attribute}
    (hd : Distinct current) : Distinct (op.run current).result := by
  match op with
  | .add as =>
    rw [AttributeOp.run, Traced.result_pure]
    exact List.foldlRecOn (motive := fun l => Distinct l) as foldIn hd
      fun _ h a _ => distinct_foldIn h a
  | .delete none => exact Keyed.distinct_nil
  | .delete (some f) =>
    rw [AttributeOp.run, Traced.result_dropWhere]
    exact hd.sublist List.filter_sublist
  | .merge f ds =>
    rw [result_run_merge]
    exact Keyed.distinct_map (key_mergedAttribute f ds) hd

/-- Whether the attributes and values that a step brings in meet a condition. -/
def attributeOpMeets (c : Condition) : AttributeOp → Bool
  | .add as => attributesMeet c as
  | .delete _ => true
  | .merge _ ds => deltasMeet c ds.toList

theorem meets_mergedAttribute {f : Filter Attribute} {ds : DeltaSet} {a : Attribute}
    (hds : deltasMeet c ds.toList = true) (ha : a.meets c = true) :
    (mergedAttribute f ds a).meets c = true := by
  unfold mergedAttribute
  split
  · cases h : ds.get? a.name.text with
    | none => exact ha
    | some d =>
      have hd : d.meets c = true := deltasMeet_iff.1 hds d (Keyed.mem_of_find? h)
      refine meets_runDelta d (some a) hd ?_
      rw [Attribute.meets_iff, ← valuesMeet_iff] at ha
      exact ha
  · exact ha

theorem meet_foldIn {current : List Attribute} {a : Attribute}
    (hcurrent : attributesMeet c current = true) (ha : a.meets c = true) :
    attributesMeet c (foldIn current a) = true := by
  rw [foldIn_eq_putList, attributesMeet_iff]
  intro b hb
  rcases Keyed.mem_putList hb with rfl | hb
  · exact meets_folded hcurrent ha
  · exact attributesMeet_iff.1 hcurrent b hb

theorem meet_runAttributeOp {op : AttributeOp} {current : List Attribute}
    (hop : attributeOpMeets c op = true) (hcurrent : attributesMeet c current = true) :
    attributesMeet c (op.run current).result = true := by
  match op with
  | .add as =>
    rw [attributeOpMeets, attributesMeet_iff] at hop
    rw [AttributeOp.run, Traced.result_pure]
    exact List.foldlRecOn (motive := fun l => attributesMeet c l = true) as foldIn hcurrent
      fun _ h a ha => meet_foldIn h (hop a ha)
  | .delete none => rfl
  | .delete (some f) =>
    rw [AttributeOp.run, Traced.result_dropWhere, attributesMeet_iff]
    exact fun a ha => attributesMeet_iff.1 hcurrent a (List.mem_filter.1 ha).1
  | .merge f ds =>
    rw [result_run_merge, attributesMeet_iff]
    intro b hb
    obtain ⟨a, ha, rfl⟩ := List.mem_map.1 hb
    exact meets_mergedAttribute hop (attributesMeet_iff.1 hcurrent a ha)

/-- Steps keep names unique, whatever they add, delete or merge. -/
theorem wellFormed_applyAttributeOps {ops : List AttributeOp} {base : AttributeSet}
    (hops : ∀ op ∈ ops, attributeOpMeets .wellFormed op = true)
    (hbase : base.meets .wellFormed = true) :
    (applyAttributeOps ops base).meets .wellFormed = true := by
  obtain ⟨as⟩ := base
  show AttributeSet.meets _ ⟨(runAttributeOps ops as).result⟩ = true
  induction ops generalizing as with
  | nil => exact hbase
  | cons op ops ih =>
    obtain ⟨hdistinct, hmeet⟩ := AttributeSet.wellFormed_iff.1 hbase
    rw [runAttributeOps, Traced.result_bind]
    refine ih (fun op' h => hops op' (List.mem_cons_of_mem _ h)) _ ?_
    have hop := hops op List.mem_cons_self
    have hstep := meet_runAttributeOp hop (attributesMeet_iff.2 hmeet)
    exact AttributeSet.wellFormed_iff.2
      ⟨distinct_runAttributeOp op hdistinct, attributesMeet_iff.1 hstep⟩

namespace Memory

variable {capabilities : Capabilities} {fresh : Nat → Uid} {m : Memory} {cls : ObjectClass}
  {uid : Uid} {options : Options}

/-- A look-up returns some of the attributes that it read. -/
theorem wellFormed_of_getObject {found : Record}
    (h : ((connector capabilities fresh).getObject cls uid options m).result = .ok (some found)) :
    found.attributes.meets .wellFormed = true := by
  rcases getObject_serves capabilities fresh m cls uid options with
    ⟨hresult, -, -⟩ | ⟨-, ⟨e, he, -⟩, -⟩
  · rw [h] at hresult
    obtain ⟨p, hp, hfound⟩ := of_map_ok hresult.symm
    obtain ⟨r, hlookUp, rfl⟩ := of_map_ok hp
    subst hfound
    unfold Documents.lookUp at hlookUp
    cases hd : m.documents (key cls uid) with
    | none =>
      rw [hd] at hlookUp
      cases hlookUp
    | some document =>
      rw [hd] at hlookUp
      obtain ⟨s, hs, hrecord⟩ := of_bind_ok hlookUp
      cases hrecord
      exact AttributeSet.meets_of_sublist List.filter_sublist
        (AttributeSet.isReadSet_of_ofJson hs).wellFormed
  · rw [h] at he
    cases he

/-- An edit that succeeds writes one document, that of a well-formed set, whatever was stored. -/
theorem documents_of_edit {e : Edit} (he : e.meets .wellFormed = true) {reply : Reply}
    (h : ((connector capabilities fresh).perform (e.request cls uid options) m).result =
      .ok reply) :
    ∃ t : AttributeSet, t.meets .wellFormed = true ∧
      ((connector capabilities fresh).perform (e.request cls uid options) m).state.documents =
        m.documents.set (key cls uid) (some t.toJson) := by
  rcases perform_serves capabilities fresh m (e.request cls uid options) with
    ⟨hresult, hdocuments, -⟩ | ⟨-, ⟨err, herr, -⟩, -⟩
  · rw [Documents.serve_request] at hresult hdocuments
    cases hread : m.documents.read cls uid with
    | error err =>
      rw [h, Documents.serveEdit_of_error hread] at hresult
      cases hresult
    | ok s =>
      rw [Documents.serveEdit_of_ok hread] at hdocuments
      exact ⟨e.run s, Edit.meets_run he (Documents.isReadSet_of_read hread).wellFormed, hdocuments⟩
  · rw [h] at herr
    cases herr

end Memory

/-- Names stay unique at every depth: in what is made of well-formed sets, whatever the filters
accept, in what a look-up returns, and in what an edit stores. -/
theorem wellFormed_of_operations (s changes : AttributeSet) (a : Attribute) (ds : DeltaSet)
    (ops : List AttributeOp) (valueOps : List ValueOp) (vs : List Value) (e : Edit)
    (hs : s.meets .wellFormed = true) (hchanges : changes.meets .wellFormed = true)
    (ha : a.meets .wellFormed = true) (hds : deltasMeet .wellFormed ds.toList = true)
    (hops : ∀ op ∈ ops, attributeOpMeets .wellFormed op = true)
    (hvalueOps : opsMeet .wellFormed valueOps = true) (hvs : valuesMeet .wellFormed vs = true)
    (he : e.meets .wellFormed = true) (capabilities : Capabilities) (fresh : Nat → Uid)
    (m : Memory) (cls : ObjectClass) (uid : Uid) (options : Options) :
    (∀ as t, AttributeSet.of? as = .ok t → attributesMeet .wellFormed as = true →
      t.meets .wellFormed = true) ∧
    AttributeSet.meets .wellFormed (s.insert a).2 = true ∧
    AttributeSet.meets .wellFormed (s.put a) = true ∧
    (∀ n, AttributeSet.meets .wellFormed (s.remove n).2 = true) ∧
    (∀ n, AttributeSet.meets .wellFormed (s.erase n) = true) ∧
    (∀ ns, AttributeSet.meets .wellFormed (s.restrict ns) = true) ∧
    (ds.applyTo s).meets .wellFormed = true ∧
    (applyAttributeOps ops s).meets .wellFormed = true ∧
    valuesMeet .wellFormed (applyOps valueOps vs) = true ∧
    (∀ mode, (mergeChanges mode changes s).meets .wellFormed = true) ∧
    (∀ found, ((Memory.connector capabilities fresh).getObject cls uid options m).result =
      .ok (some found) → found.attributes.meets .wellFormed = true) ∧
    let o := (Memory.connector capabilities fresh).perform (e.request cls uid options) m
    (∀ reply, o.result = .ok reply → ∃ t : AttributeSet, t.meets .wellFormed = true ∧
      o.state.documents = m.documents.set (Memory.key cls uid) (some t.toJson)) ∧
    ∀ cls uid t, o.state.documents.read cls uid = .ok t → t.meets .wellFormed = true := by
  refine ⟨fun _ _ => AttributeSet.wellFormed_of_of?, ?_, meets_put hs ha, fun n => ?_,
    AttributeSet.meets_erase hs, AttributeSet.meets_restrict hs, meets_applyTo hds hs,
    wellFormed_applyAttributeOps hops hs, meets_runOps valueOps vs hvalueOps hvs,
    fun mode => wellFormed_mergeChanges mode hchanges hs,
    fun _ => Memory.wellFormed_of_getObject, ?_, ?_⟩
  · rw [Keyed.insert_eq]
    exact meets_put hs ha
  · rw [Keyed.remove_eq]
    exact AttributeSet.meets_erase hs n
  · exact fun _ hreply => Memory.documents_of_edit he hreply
  · exact fun _ _ _ hread => (Documents.isReadSet_of_read hread).wellFormed

def role (level : Int64) : Value :=
  .ofObject ⟨⟨⟨"role", by decide⟩⟩, ⟨[⟨⟨"level", by decide⟩, [.integer level]⟩]⟩⟩

def member : AttributeSet :=
  ⟨[⟨⟨"email", by decide⟩, [.string "ann@work"]⟩, ⟨⟨"roles", by decide⟩, [role 1]⟩]⟩

def raise : DeltaSet :=
  ⟨[.complex ⟨"ROLES", by decide⟩
    [.merge (.predicate 0 "any" fun _ => true)
      ⟨[.replace ⟨"LEVEL", by decide⟩ [.integer 2]]⟩]]⟩

def withMember : Memory :=
  { Memory.empty with
    store := Store.empty.put (Memory.key .account Memory.bob) member.toJson }

/-- A role of a member is raised by a delta that spells both names its own way. -/
theorem wellFormed_of_raise :
    (raise.applyTo member).names = ["email", "ROLES"] ∧
    (raise.applyTo member).meets .wellFormed = true ∧
    (applyAttributeOps [.add member.toList, .merge (.attributeNamed 0 "Roles") raise]
      member).meets .wellFormed = true ∧
    ∃ t : AttributeSet, t.meets .wellFormed = true ∧
      ((Memory.connector .full fun _ => Memory.bob).perform
        (.updateDelta .account Memory.bob raise .default) withMember).state.documents =
        withMember.documents.set (Memory.key .account Memory.bob) (some t.toJson) := by
  obtain ⟨-, -, -, -, -, -, happly, hsteps, -, -, -, hstored, -⟩ :=
    wellFormed_of_operations member member ⟨⟨"email", by decide⟩, []⟩ raise
      [.add member.toList, .merge (.attributeNamed 0 "Roles") raise] [.add [role 2]] [role 1]
      (.apply raise) (by decide) (by decide) (by decide) (by decide) (by decide) (by decide)
      (by decide) (by decide) .full (fun _ => Memory.bob) withMember .account Memory.bob .default
  exact ⟨by decide, happly, hsteps, hstored _ rfl⟩

end Provisioning
