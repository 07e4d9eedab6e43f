import Provisioning.Proofs.Base64
import Provisioning.Proofs.Content
import Provisioning.Proofs.Instant
import Provisioning.Wire.Decode

/-!
# Reading what was written

A written set of attributes is read back without its marks, and with the points in time that its
texts denote, if every double in it is finite. If one is not, there is a null in its place, and
reading fails there (`ofJson_toJson`). Whatever is read, from any tree, has no marks, only points in
time that their texts denote, and no repeated names (`isReadSet_of_ofJson`).
-/
namespace Provisioning

open Json (Draft)

namespace Wire

/-- What is read of something written: it is there again, unless it holds a double for which a null
was written. -/
def reread {α : Type} (finite : Bool) (a : α) : Except Error α :=
  if finite then .ok a else .error (.document .nullNumber)

theorem map_reread {α β : Type} (finite : Bool) (a : α) (f : α → β) :
    (reread finite a).map f = reread finite (f a) := by
  cases finite <;> rfl

theorem reread_bind {α β : Type} (finite : Bool) (a : α) (b : β) {next : α → Except Error β}
    (h : next a = .ok b) : (reread finite a >>= next) = reread finite b := by
  cases finite with
  | true => exact h
  | false => rfl

theorem ofItems_eq_map (js : List Json) : Draft.ofItems js = js.map Draft.ofJson := by
  induction js with
  | nil => rfl
  | cons j js ih => rw [Draft.ofItems, ih, List.map_cons]

/-- A written list is read item by item. -/
theorem asList_ofJson {α β : Type} {item : Draft → Except Error α} {write : β → Json}
    {finite : β → Bool} {f : β → α} {bs : List β}
    (h : ∀ b ∈ bs, item (Draft.ofJson (write b)) = reread (finite b) (f b)) :
    asList item (Draft.ofJson (.array (bs.map write))) = reread (bs.all finite) (bs.map f) := by
  rw [Draft.ofJson, ofItems_eq_map, asList]
  induction bs with
  | nil => rfl
  | cons b bs ih =>
    have hrest := ih fun c hc => h c (List.mem_cons_of_mem _ hc)
    rw [List.map_cons, List.map_cons, List.mapM_cons, h b List.mem_cons_self, hrest,
      List.all_cons, List.map_cons]
    cases finite b <;> cases bs.all finite <;> rfl

section

variable {α β : Type} {k l : String} (hkl : k ≠ l) (first : Draft → Except Error α)
  (second : Draft → Except Error β) (d e : Draft)

include hkl

theorem pair_inOrder :
    pair k l first second (.object [(some k, d), (some l, e)]) = (do
      let a ← first d
      let b ← second e
      return (some a, some b)) := by
  simp only [pair, fields, scan, pairStep, fill, ↓reduceIte, Option.isSome_none, Bool.false_eq_true,
    hkl.symm]
  cases first d with
  | error err => rfl
  | ok a => cases second e <;> rfl

theorem pair_swapped :
    pair k l first second (.object [(some l, e), (some k, d)]) = (do
      let b ← second e
      let a ← first d
      return (some a, some b)) := by
  simp only [pair, fields, scan, pairStep, fill, ↓reduceIte, Option.isSome_none, Bool.false_eq_true,
    hkl.symm]
  cases second e with
  | error err => rfl
  | ok b => cases first d <;> rfl

end

theorem encodeValues_eq_map (vs : List Value) :
    encodeValues Json.double vs = vs.map Value.toJson := by
  induction vs with
  | nil => rfl
  | cons v vs ih => rw [encodeValues, ih, List.map_cons, Value.toJson]

theorem encodeAttributes_eq_map (as : List Attribute) :
    encodeAttributes Json.double as = as.map Attribute.toJson := by
  induction as with
  | nil => rfl
  | cons a as ih => rw [encodeAttributes, ih, List.map_cons, Attribute.toJson]

theorem of?_name (n : Name) (vs : List Value) : Attribute.of? n.text vs = .ok ⟨n, vs⟩ := by
  rw [Attribute.of?, Name.require_text]
  rfl

/-- Whether written values are read back, without marks and with the points in time that their
texts denote. -/
def Rereads (value : Draft → Except Error Value) (vs : List Value) : Prop :=
  ∀ v ∈ vs, value (Draft.ofJson v.toJson) = reread (v.meets .finite) (v.recast .denoted)

theorem asAttribute_ofJson {value : Draft → Except Error Value} {a : Attribute}
    (h : Rereads value a.values) :
    asAttribute value (Draft.ofJson a.toJson) = reread (a.meets .finite) (a.recast .denoted) := by
  obtain ⟨n, vs⟩ := a
  have hvalues : asList value (Draft.ofJson (.array (encodeValues Json.double vs))) =
      reread (valuesMeet .finite vs) (recastValues .denoted vs) := by
    rw [encodeValues_eq_map, asList_ofJson h, valuesMeet_eq_all, recastValues_eq_map]
  have hdraft : Draft.ofJson (Attribute.toJson ⟨n, vs⟩) =
      .object [(some "name", .string n.text),
        (some "values", Draft.ofJson (.array (encodeValues Json.double vs)))] := by
    simp only [Attribute.toJson, Attribute.encode, Draft.ofJson, Draft.ofFields]
  rw [asAttribute, hdraft, pair_inOrder (by decide), hvalues, Attribute.meets, Attribute.recast]
  cases valuesMeet .finite vs with
  | false => rfl
  | true =>
    show checked (Attribute.of? n.text (recastValues .denoted vs)) = _
    rw [of?_name]
    rfl

/-- A written set without repeated names is read back, given that its values are. -/
theorem asAttributeSet_ofJson {value : Draft → Except Error Value} {s : AttributeSet}
    (hs : Keyed.Distinct s.toList) (h : ∀ a ∈ s.toList, Rereads value a.values) :
    asAttributeSet value (Draft.ofJson s.toJson) =
      reread (attributesMeet .finite s.toList) (s.recast .denoted) := by
  have hattributes : asList (asAttribute value) (Draft.ofJson s.toJson) =
      reread (attributesMeet .finite s.toList) (recastAttributes .denoted s.toList) := by
    rw [AttributeSet.toJson, AttributeSet.encode, encodeAttributes_eq_map,
      asList_ofJson fun a ha => asAttribute_ofJson (h a ha), attributesMeet_eq_all,
      recastAttributes_eq_map]
  have hset : AttributeSet.of? (recastAttributes .denoted s.toList) = .ok (s.recast .denoted) := by
    rw [AttributeSet.of?, Keyed.ofList?_eq_ok_iff.2 ⟨rfl, distinct_recast _ hs⟩]
    rfl
  rw [asAttributeSet, hattributes]
  refine reread_bind _ _ _ ?_
  rw [hset]
  rfl

theorem tagged_ofJson (kept : Bool) (content : Bool → ValueKind → Draft → Except Error Value)
    (kind : ValueKind) (j : Json) :
    tagged kept content (Draft.ofJson (taggedJson kind j)) =
      content kept kind (Draft.ofJson j) := by
  have hkind : asKind kept (.string kind.label) = .ok kind := by
    cases kind <;> rfl
  have hdraft : Draft.ofJson (taggedJson kind j) =
      .object [(some "type", .string kind.label), (some "value", Draft.ofJson j)] := by
    simp only [taggedJson, Draft.ofJson, Draft.ofFields]
  rw [hdraft]
  simp only [tagged, scan, tagStep, hkind, Except.map, bind, Except.bind]
  cases content kept kind (Draft.ofJson j) <;> rfl

/-- A written value is no flatter than what is in it. -/
theorem height_item {js : List Json} {j : Json} (h : j ∈ js) :
    (Draft.ofJson j).height ≤ (Draft.ofJson (.array js)).height := by
  rw [Draft.ofJson, Draft.height]
  induction js with
  | nil => cases h
  | cons i js ih =>
    rw [Draft.ofItems, Draft.itemsHeight]
    rcases List.mem_cons.1 h with rfl | h
    · omega
    · have := ih h
      omega

theorem height_field {fs : List (String × Json)} {k : String} {j : Json} (h : (k, j) ∈ fs) :
    (Draft.ofJson j).height + 1 ≤ (Draft.ofJson (.object fs)).height := by
  rw [Draft.ofJson, Draft.height]
  induction fs with
  | nil => cases h
  | cons g fs ih =>
    obtain ⟨l, i⟩ := g
    rw [Draft.ofFields, Draft.fieldsHeight]
    rcases List.mem_cons.1 h with heq | h
    · cases heq
      omega
    · have := ih h
      omega

theorem height_value {a : Attribute} {v : Value} (h : v ∈ a.values) :
    (Draft.ofJson v.toJson).height ≤ (Draft.ofJson a.toJson).height := by
  obtain ⟨n, vs⟩ := a
  have hvalues : ("values", Json.array (encodeValues Json.double vs)) ∈
      [("name", Json.string n.text), ("values", .array (encodeValues Json.double vs))] := by
    simp
  have hfield := height_field hvalues
  have hitem : (Draft.ofJson v.toJson).height ≤
      (Draft.ofJson (.array (encodeValues Json.double vs))).height := by
    rw [encodeValues_eq_map]
    exact height_item (List.mem_map_of_mem h)
  rw [Attribute.toJson, Attribute.encode]
  omega

theorem height_taggedJson (kind : ValueKind) (j : Json) :
    (Draft.ofJson j).height + 1 ≤ (Draft.ofJson (taggedJson kind j)).height := by
  have hcontent : ("value", j) ∈ [("type", Json.string kind.label), ("value", j)] := by
    simp
  exact height_field hcontent

/-- The values in an embedded object are flatter than its own. -/
theorem height_embedded (mark : Option Nat) {o : EmbeddedObject} {a : Attribute} {v : Value}
    (ha : a ∈ o.attributes.toList) (hv : v ∈ a.values) :
    (Draft.ofJson v.toJson).height + 1 ≤ (Draft.ofJson (Value.embedded mark o).toJson).height := by
  obtain ⟨c, ⟨as⟩⟩ := o
  have hitem : (Draft.ofJson a.toJson).height ≤
      (Draft.ofJson (.array (encodeAttributes Json.double as))).height := by
    rw [encodeAttributes_eq_map]
    exact height_item (List.mem_map_of_mem ha)
  have hattributes : ("attributes", Json.array (encodeAttributes Json.double as)) ∈
      [("attributes", .array (encodeAttributes Json.double as)),
        ("object_class", .string c.text)] := by
    simp
  have hfield := height_field hattributes
  have htagged := height_taggedJson .embedded (.object
    [("attributes", .array (encodeAttributes Json.double as)), ("object_class", .string c.text)])
  have hvalue := height_value hv
  show _ ≤ (Draft.ofJson (taggedJson .embedded (.object
    [("attributes", .array (encodeAttributes Json.double as)),
      ("object_class", .string c.text)]))).height
  omega

theorem asClass_text (c : ObjectClass) : asClass (.string c.text) = .ok c := by
  show checked (ObjectClass.of? c.text) = _
  rw [ObjectClass.of?_text]
  rfl

section

variable {keys : List String} (attributes : Draft → Except Error AttributeSet) (s : Slots)

theorem slotStep_objectClass (h : "object_class" ∈ keys) :
    slotStep keys attributes s "object_class" =
      some fun d => (fill s.objectClass asClass d).map fun c => { s with objectClass := c } :=
  if_pos h

theorem slotStep_uid (h : "uid" ∈ keys) :
    slotStep keys attributes s "uid" =
      some fun d => (fill s.uid asUid d).map fun u => { s with uid := u } :=
  if_pos h

theorem slotStep_attributes (h : "attributes" ∈ keys) :
    slotStep keys attributes s "attributes" =
      some fun d => (fill s.attributes attributes d).map fun as => { s with attributes := as } :=
  if_pos h

end

theorem slots_object (attributes : Draft → Except Error AttributeSet) (d : Draft)
    (c : ObjectClass) :
    slots objectKeys attributes
        (.object [(some "attributes", d), (some "object_class", .string c.text)]) =
      (attributes d).map fun as => ⟨some c, none, some as⟩ := by
  have hattributes : "attributes" ∈ objectKeys := by decide
  have hclass : "object_class" ∈ objectKeys := by decide
  simp only [slots, fields, scan, slotStep_attributes _ _ hattributes,
    slotStep_objectClass _ _ hclass, fill, Option.isSome_none, Bool.false_eq_true, ↓reduceIte,
    asClass_text]
  cases attributes d <;> rfl

theorem asObject_ofJson {value : Draft → Except Error Value} {o : EmbeddedObject}
    (ho : Keyed.Distinct o.attributes.toList)
    (h : ∀ a ∈ o.attributes.toList, Rereads value a.values) :
    asObject value (Draft.ofJson o.toJson) =
      reread (attributesMeet .finite o.attributes.toList) (o.recast .denoted) := by
  obtain ⟨c, s⟩ := o
  have hdraft : Draft.ofJson (EmbeddedObject.toJson ⟨c, s⟩) =
      .object [(some "attributes", Draft.ofJson (AttributeSet.toJson s)),
        (some "object_class", .string c.text)] := by
    simp only [EmbeddedObject.toJson, EmbeddedObject.encode, Draft.ofJson, Draft.ofFields,
      AttributeSet.toJson, AttributeSet.encode]
  rw [asObject, hdraft, slots_object, asAttributeSet_ofJson ho h]
  cases attributesMeet .finite s.toList <;> rfl

theorem asInt64_ofJson (i : Int64) : asInt64 (Draft.ofJson (.integer i.toInt)) = .ok i := by
  have hbounds : Int64.minValue.toInt ≤ i.toInt ∧ i.toInt ≤ Int64.maxValue.toInt :=
    ⟨i.minValue_le_toInt, i.toInt_le⟩
  show (if Int64.minValue.toInt ≤ i.toInt ∧ i.toInt ≤ Int64.maxValue.toInt
    then Except.ok i.toInt else unreadable).map Int64.ofInt = _
  rw [if_pos hbounds]
  exact congrArg Except.ok (Int64.ofInt_toInt i)

theorem asDouble_ofJson (d : Binary64) :
    asDouble (Draft.ofJson (Json.double d)) = reread d.isFinite d := by
  unfold Json.double
  cases d.isFinite <;> rfl

theorem contentOf_binary (value : Draft → Except Error Value) (bytes : List UInt8) :
    contentOf value .binary (.string (Base64.encode bytes)) = .ok (.binary bytes) := by
  simp only [contentOf, asText, bind, Except.bind, Base64.decode?_encode, pure, Except.pure]

theorem contentOf_dateTime (value : Draft → Except Error Value) (t : Instant) :
    contentOf value .dateTime (.string (t.text "Z")) = .ok (.dateTime t.denoted) := by
  simp only [contentOf, asText, bind, Except.bind, Instant.ofText?_text, pure, Except.pure]

/-- A written value is read back, if no more levels are in it than are read. -/
theorem valueWithin_ofJson {depth : Nat} (kept : Bool) {v : Value}
    (hv : v.meets .wellFormed = true) (hdepth : (Draft.ofJson v.toJson).height ≤ depth) :
    valueWithin depth kept (Draft.ofJson v.toJson) =
      reread (v.meets .finite) (v.recast .denoted) := by
  induction depth generalizing kept v with
  | zero =>
    have hpositive : 0 < (Draft.ofJson v.toJson).height := by
      cases v <;> exact Nat.succ_pos _
    omega
  | succ depth ih =>
    rw [valueWithin]
    cases v with
    | string s => exact tagged_ofJson kept _ .string (.string s)
    | integer i =>
      rw [Value.toJson, Value.encode, tagged_ofJson, contentOf, asInt64_ofJson]
      rfl
    | double d =>
      rw [Value.toJson, Value.encode, tagged_ofJson, contentOf, asDouble_ofJson, map_reread]
      rfl
    | boolean b => exact tagged_ofJson kept _ .boolean (.bool b)
    | binary bytes =>
      rw [Value.toJson, Value.encode, tagged_ofJson, Draft.ofJson, contentOf_binary]
      rfl
    | dateTime t =>
      rw [Value.toJson, Value.encode, tagged_ofJson, Draft.ofJson, contentOf_dateTime]
      rfl
    | embedded mark o =>
      rw [meets_embedded, AttributeSet.meets_iff] at hv
      obtain ⟨hdistinct, hattributes⟩ := hv
      have hinner (a : Attribute) (ha : a ∈ o.attributes.toList) :
          Rereads (valueWithin depth kept) a.values := by
        intro v hv
        have hheight := height_embedded mark ha hv
        exact ih kept (Attribute.meets_iff.1 (hattributes a ha) v hv) (by omega)
      have hobject := asObject_ofJson (of_decide_eq_true hdistinct) hinner
      rw [Value.toJson, Value.encode, tagged_ofJson, contentOf, ← EmbeddedObject.toJson, hobject,
        map_reread, meets_embedded]
      rfl

/-- A condition on drafts that holds of every part of a draft of which it holds. -/
structure Hereditary (Q : Draft → Prop) : Prop where
  broken : Q .broken
  items : ∀ {ds}, Q (.array ds) → ∀ d ∈ ds, Q d
  fields : ∀ {fs}, Q (.object fs) → ∀ f ∈ fs, Q f.2

theorem hereditary_true : Hereditary fun _ => True :=
  ⟨trivial, fun _ _ _ => trivial, fun _ _ _ => trivial⟩

theorem of_fill {α : Type} {slot : Option α} {read : Draft → Except Error α} {d : Draft}
    {filled : Option α} (h : fill slot read d = .ok filled) :
    ∃ a, filled = some a ∧ read d = .ok a := by
  unfold fill at h
  split at h
  · cases h
  · cases hd : read d with
    | error e =>
      rw [hd] at h
      cases h
    | ok a =>
      rw [hd] at h
      cases h
      exact ⟨a, rfl, rfl⟩

theorem of_checked {α : Type} {r : Except Error α} {a : α} (h : checked r = .ok a) :
    r = .ok a := by
  cases r with
  | ok b => exact h
  | error e => cases e <;> cases h

theorem of_present {α : Type} {slot : Option α} {a : α} (h : present slot = .ok a) :
    slot = some a := by
  cases slot with
  | none => cases h
  | some b =>
    cases h
    rfl

section

variable {Q : Draft → Prop}

theorem scan_invariant {σ : Type} {step : σ → String → Option (Draft → Except Error σ)}
    {P : σ → Prop}
    (hstep : ∀ s key read d t, P s → Q d → step s key = some read → read d = .ok t → P t) :
    ∀ (fs : List (Option String × Draft)) {s t : σ}, (∀ f ∈ fs, Q f.2) → P s →
      scan step s fs = .ok t → P t
  | [], s, t, _, hs, h => by
      rw [scan] at h
      cases h
      exact hs
  | (none, d) :: fs, s, t, _, hs, h => by
      rw [scan] at h
      cases h
  | (some key, d) :: fs, s, t, hfs, hs, h => by
      obtain ⟨hd, hfs⟩ := List.forall_mem_cons.1 hfs
      rw [scan] at h
      cases hread : step s key with
      | none =>
        simp only [hread] at h
        split at h
        · exact scan_invariant hstep fs hfs hs h
        · cases h
      | some read =>
        simp only [hread] at h
        cases hu : read d with
        | error e =>
          rw [hu] at h
          cases h
        | ok u =>
          rw [hu] at h
          exact scan_invariant hstep fs hfs (hstep s key read d u hs hd hread hu) h

variable (hQ : Hereditary Q)

include hQ

theorem forall_positional : ∀ (ks : List String) {items : List Draft}, (∀ d ∈ items, Q d) →
    ∀ f ∈ positional ks items, Q f.2
  | _, [], _ => fun f hf => by
      rw [positional] at hf
      cases hf
  | [], d :: ds, _ => fun f hf => by
      cases List.mem_singleton.1 hf
      exact hQ.broken
  | k :: ks, d :: ds, hitems => by
      obtain ⟨hd, hds⟩ := List.forall_mem_cons.1 hitems
      exact List.forall_mem_cons.2 ⟨hd, forall_positional ks hds⟩

/-- What every field keeps holds when an object, or an array of its fields, has been read. -/
theorem fields_invariant {σ : Type} {keys : List String}
    {step : σ → String → Option (Draft → Except Error σ)} {P : σ → Prop}
    (hstep : ∀ s key read d t, P s → Q d → step s key = some read → read d = .ok t → P t)
    {start t : σ} (hstart : P start) {d : Draft} (hd : Q d)
    (h : fields keys step start d = .ok t) : P t := by
  cases d with
  | object fs => exact scan_invariant hstep fs (hQ.fields hd) hstart h
  | array items => exact scan_invariant hstep _ (forall_positional hQ keys (hQ.items hd)) hstart h
  | _ => cases h

omit hQ in
/-- Slots that hold only what is read as their field. -/
def Filled {α β : Type} (Q : Draft → Prop) (first : Draft → Except Error α)
    (second : Draft → Except Error β) (p : Option α × Option β) : Prop :=
  (∀ a, p.1 = some a → ∃ d, Q d ∧ first d = .ok a) ∧
    ∀ b, p.2 = some b → ∃ d, Q d ∧ second d = .ok b

theorem filled_of_pair {α β : Type} {k l : String} {first : Draft → Except Error α}
    {second : Draft → Except Error β} {d : Draft} {p : Option α × Option β} (hd : Q d)
    (h : pair k l first second d = .ok p) : Filled Q first second p := by
  have hstart : Filled Q first second (none, none) := by
    constructor
    · intro a ha
      cases ha
    · intro b hb
      cases hb
  refine fields_invariant hQ (fun s key read d t hs hd hkey hread => ?_) hstart hd h
  obtain ⟨ha, hb⟩ := hs
  unfold pairStep at hkey
  split at hkey
  · cases hkey
    obtain ⟨slot, hslot, rfl⟩ := of_map_ok hread
    obtain ⟨a, rfl, hfirst⟩ := of_fill hslot
    refine ⟨fun a' ha' => ?_, hb⟩
    cases ha'
    exact ⟨d, hd, hfirst⟩
  · split at hkey
    · cases hkey
      obtain ⟨slot, hslot, rfl⟩ := of_map_ok hread
      obtain ⟨b, rfl, hsecond⟩ := of_fill hslot
      refine ⟨ha, fun b' hb' => ?_⟩
      cases hb'
      exact ⟨d, hd, hsecond⟩
    · cases hkey

/-- The attributes of an object are read as such. -/
theorem attributes_of_slots {keys : List String} {attributes : Draft → Except Error AttributeSet}
    {d : Draft} {s : Slots} {as : AttributeSet} (hd : Q d) (h : slots keys attributes d = .ok s)
    (has : s.attributes = some as) : ∃ e, Q e ∧ attributes e = .ok as := by
  suffices hs : ∀ as, s.attributes = some as → ∃ e, Q e ∧ attributes e = .ok as from hs as has
  refine fields_invariant hQ (P := fun s => ∀ as, s.attributes = some as →
    ∃ e, Q e ∧ attributes e = .ok as) (fun s key read d t hs hd hkey hread => ?_)
    (fun as has => by cases has) hd h
  unfold slotStep at hkey
  split at hkey
  · split at hkey
    · cases hkey
      obtain ⟨slot, -, rfl⟩ := of_map_ok hread
      exact hs
    · cases hkey
      obtain ⟨slot, -, rfl⟩ := of_map_ok hread
      exact hs
    · cases hkey
      obtain ⟨slot, hslot, rfl⟩ := of_map_ok hread
      obtain ⟨as, rfl, has⟩ := of_fill hslot
      intro as' has'
      cases has'
      exact ⟨d, hd, has⟩
    · cases hkey
  · cases hkey

theorem of_asList {α : Type} {item : Draft → Except Error α} {d : Draft} {as : List α} (hd : Q d)
    (h : asList item d = .ok as) : ∀ a ∈ as, ∃ e, Q e ∧ item e = .ok a := by
  cases d with
  | array items =>
    have hitems := hQ.items hd
    clear hd
    rw [asList] at h
    induction items generalizing as with
    | nil =>
      cases h
      intro a ha
      cases ha
    | cons e items ih =>
      rw [List.mapM_cons] at h
      obtain ⟨a, ha, h⟩ := of_bind_ok h
      obtain ⟨rest, hrest, h⟩ := of_bind_ok h
      cases h
      intro b hb
      rcases List.mem_cons.1 hb with rfl | hb
      · exact ⟨e, hitems e List.mem_cons_self, ha⟩
      · exact ih hrest (fun d hd => hitems d (List.mem_cons_of_mem _ hd)) b hb
  | _ => cases h

omit hQ in
/-- States in which content that is kept, or read already, was found in a draft as wanted. -/
def TagState.Honest {α : Type} (Q : Draft → Prop)
    (content : Bool → ValueKind → Draft → Except Error α) : TagState α → Prop
  | .stored d => Q d
  | .done v => ∃ kept k d, Q d ∧ content kept k d = .ok v
  | _ => True

omit hQ in
theorem honest_of_tagStep {α : Type} {kept : Bool}
    {content : Bool → ValueKind → Draft → Except Error α} {s t : TagState α} {key : String}
    {read : Draft → Except Error (TagState α)} {d : Draft} (hs : s.Honest Q content) (hd : Q d)
    (hkey : tagStep kept content s key = some read) (hread : read d = .ok t) :
    t.Honest Q content := by
  unfold tagStep at hkey
  split at hkey
  · cases hkey
    obtain ⟨k, -, rfl⟩ := of_map_ok hread
    trivial
  · cases hkey
    dsimp only at hread
    split at hread
    · cases hread
      exact hd
    · cases hread
  · rename_i k
    cases hkey
    obtain ⟨w, hw, rfl⟩ := of_map_ok hread
    exact ⟨kept, k, d, hd, hw⟩
  · rename_i c
    cases hkey
    obtain ⟨k, -, hread⟩ := of_bind_ok hread
    obtain ⟨w, hw, rfl⟩ := of_map_ok hread
    exact ⟨true, k, c, hs, hw⟩
  · cases hkey
    cases hread
  · cases hkey
    cases hread
  · cases hkey
    cases hread
  · cases hkey
    cases hread
  · cases hkey

/-- A value is read as content of its kind. -/
theorem of_tagged {α : Type} {kept : Bool} {content : Bool → ValueKind → Draft → Except Error α}
    {d : Draft} {v : α} (hd : Q d) (h : tagged kept content d = .ok v) :
    ∃ kept k e, Q e ∧ content kept k e = .ok v := by
  cases d with
  | object fs =>
    obtain ⟨s, hscan, h⟩ := of_bind_ok h
    have hstart : TagState.start.Honest Q content := trivial
    have hs := scan_invariant (fun _ _ _ _ _ hs hd hkey hread =>
      honest_of_tagStep hs hd hkey hread) fs (hQ.fields hd) hstart hscan
    cases s with
    | done w =>
      cases h
      exact hs
    | _ => cases h
  | array items =>
    match items with
    | [] => cases h
    | [_] => cases h
    | t :: e :: rest =>
      obtain ⟨k, -, h⟩ := of_bind_ok h
      obtain ⟨w, hw, h⟩ := of_bind_ok h
      split at h
      · cases h
        exact ⟨kept, k, e, hQ.items hd e (by simp), hw⟩
      · cases h
  | _ => cases h

end

/-- A condition that holds of every double that is read of such drafts, of every point in time that
a text denotes, and of all attributes without repeated names. -/
structure HoldsOfRead (c : Condition) (Q : Draft → Prop) : Prop where
  double : ∀ d x, Q d → asDouble d = .ok x → c.double x = true
  time : ∀ text t, Instant.ofText? text = some t → c.time t = true
  attributes : ∀ as, Keyed.Distinct as → c.attributes as = true

theorem wellFormed_holdsOfRead (Q : Draft → Prop) : HoldsOfRead .wellFormed Q :=
  ⟨fun _ _ _ _ => rfl, fun _ _ _ => rfl, fun _ h => decide_eq_true h⟩

theorem denotable_holdsOfRead (Q : Draft → Prop) : HoldsOfRead .denotable Q :=
  ⟨fun _ _ _ _ => rfl, fun _ _ h => denotable_of_ofText? h, fun _ _ => rfl⟩

/-- A value without marks that meets a condition throughout. -/
def IsRead (c : Condition) (v : Value) : Prop := v.recast id = v ∧ v.meets c = true

section

variable {Q : Draft → Prop} (hQ : Hereditary Q) {c : Condition} (hc : HoldsOfRead c Q)
  {value : Draft → Except Error Value} {d : Draft}

include hQ

theorem isRead_of_asAttribute (hvalue : ∀ d v, Q d → value d = .ok v → IsRead c v) (hd : Q d)
    {a : Attribute} (h : asAttribute value d = .ok a) : ∀ v ∈ a.values, IsRead c v := by
  obtain ⟨p, hpair, h⟩ := of_bind_ok h
  obtain ⟨name, hname, h⟩ := of_bind_ok h
  obtain ⟨values, hvalues, h⟩ := of_bind_ok h
  obtain ⟨e, he, hlist⟩ := (filled_of_pair hQ hd hpair).2 values (of_present hvalues)
  obtain ⟨n, -, rfl⟩ := of_map_ok (of_checked h)
  intro v hv
  obtain ⟨e', he', hread⟩ := of_asList hQ he hlist v hv
  exact hvalue e' v he' hread

omit hQ in
theorem recast_of_values {a : Attribute} (h : ∀ v ∈ a.values, IsRead c v) : a.recast id = a := by
  obtain ⟨n, vs⟩ := a
  have hvalues : vs.map (Value.recast id) = vs.map id :=
    List.map_congr_left fun v hv => (h v hv).1
  rw [Attribute.recast, recastValues_eq_map, hvalues, List.map_id]

include hc

omit hQ in
theorem isRead_of_attributes {s : AttributeSet} (hdistinct : Keyed.Distinct s.toList)
    (h : ∀ a ∈ s.toList, ∀ v ∈ a.values, IsRead c v) : s.recast id = s ∧ s.meets c = true := by
  obtain ⟨as⟩ := s
  have hrecast : as.map (Attribute.recast id) = as.map id :=
    List.map_congr_left fun a ha => recast_of_values (h a ha)
  constructor
  · rw [AttributeSet.recast, recastAttributes_eq_map, hrecast, List.map_id]
  · rw [AttributeSet.meets_iff]
    refine ⟨hc.attributes as hdistinct, fun a ha => ?_⟩
    exact Attribute.meets_iff.2 fun v hv => (h a ha v hv).2

theorem isRead_of_asAttributeSet (hvalue : ∀ d v, Q d → value d = .ok v → IsRead c v) (hd : Q d)
    {s : AttributeSet} (h : asAttributeSet value d = .ok s) :
    s.recast id = s ∧ s.meets c = true := by
  obtain ⟨as, hlist, h⟩ := of_bind_ok h
  have hset : Keyed.ofList? as = .ok s := of_mapError_ok (of_checked h)
  obtain ⟨rfl, hdistinct⟩ := Keyed.ofList?_eq_ok_iff.1 hset
  refine isRead_of_attributes hc hdistinct fun a ha => ?_
  obtain ⟨e, he, hread⟩ := of_asList hQ hd hlist a ha
  exact isRead_of_asAttribute hQ hvalue he hread

theorem isRead_of_asObject (hvalue : ∀ d v, Q d → value d = .ok v → IsRead c v) (hd : Q d)
    {o : EmbeddedObject} (h : asObject value d = .ok o) : IsRead c (.ofObject o) := by
  obtain ⟨s, hslots, h⟩ := of_bind_ok h
  obtain ⟨cls, -, h⟩ := of_bind_ok h
  obtain ⟨as, has, h⟩ := of_bind_ok h
  cases h
  obtain ⟨e, he, hread⟩ := attributes_of_slots hQ hd hslots (of_present has)
  obtain ⟨hrecast, hmeets⟩ := isRead_of_asAttributeSet hQ hc hvalue he hread
  constructor
  · obtain ⟨xs⟩ := as
    have hxs : recastAttributes id xs = xs := congrArg Keyed.toList hrecast
    rw [Value.ofObject, Value.recast, EmbeddedObject.recast, hxs]
  · rw [Value.ofObject, meets_embedded]
    exact hmeets

theorem isRead_of_valueWithin {depth : Nat} {kept : Bool} {v : Value} (hd : Q d)
    (h : valueWithin depth kept d = .ok v) : IsRead c v := by
  induction depth generalizing kept d v with
  | zero =>
    rw [valueWithin] at h
    cases h
  | succ depth ih =>
    rw [valueWithin] at h
    obtain ⟨kept', k, e, he, hcontent⟩ := of_tagged hQ hd h
    cases k with
    | embedded =>
      obtain ⟨o, ho, rfl⟩ := of_map_ok hcontent
      exact isRead_of_asObject hQ hc (fun _ _ => ih) he ho
    | double =>
      obtain ⟨x, hx, rfl⟩ := of_map_ok hcontent
      exact ⟨rfl, hc.double e x he hx⟩
    | binary =>
      obtain ⟨text, -, h⟩ := of_bind_ok hcontent
      split at h
      · cases h
        exact ⟨rfl, rfl⟩
      · cases h
    | dateTime =>
      obtain ⟨text, -, h⟩ := of_bind_ok hcontent
      split at h
      · rename_i t ht
        cases h
        exact ⟨rfl, hc.time text t ht⟩
      · cases h
    | _ =>
      obtain ⟨a, -, rfl⟩ := of_map_ok hcontent
      exact ⟨rfl, rfl⟩

end

end Wire

section

variable {Q : Draft → Prop} (hQ : Wire.Hereditary Q) {d : Draft} (hd : Q d) {c : Condition}
  (hc : Wire.HoldsOfRead c Q)

include hQ hd hc

theorem Value.isRead_of_ofDraft {v : Value} (h : Value.ofDraft d = .ok v) : Wire.IsRead c v :=
  Wire.isRead_of_valueWithin hQ hc hd h

theorem Attribute.isRead_of_ofDraft {a : Attribute} (h : Attribute.ofDraft d = .ok a) :
    a.recast id = a ∧ a.meets c = true := by
  have hvalues := Wire.isRead_of_asAttribute hQ
    (fun _ _ hd => Value.isRead_of_ofDraft hQ hd hc) hd h
  exact ⟨Wire.recast_of_values hvalues, Attribute.meets_iff.2 fun v hv => (hvalues v hv).2⟩

theorem AttributeSet.isRead_of_ofDraft {s : AttributeSet} (h : AttributeSet.ofDraft d = .ok s) :
    s.recast id = s ∧ s.meets c = true :=
  Wire.isRead_of_asAttributeSet hQ hc (fun _ _ hd => Value.isRead_of_ofDraft hQ hd hc) hd h

theorem EmbeddedObject.isRead_of_ofDraft {o : EmbeddedObject}
    (h : EmbeddedObject.ofDraft d = .ok o) :
    o.recast id = o ∧ AttributeSet.meets c o.attributes = true := by
  obtain ⟨hrecast, hmeets⟩ := Wire.isRead_of_asObject hQ hc
    (fun _ _ hd => Value.isRead_of_ofDraft hQ hd hc) hd h
  rw [Value.ofObject, Value.recast, Value.embedded.injEq] at hrecast
  rw [Value.ofObject, meets_embedded] at hmeets
  exact ⟨hrecast.2, hmeets⟩

theorem Record.isRead_of_ofDraft {r : Record} (h : Record.ofDraft d = .ok r) :
    r.attributes.recast id = r.attributes ∧ r.attributes.meets c = true := by
  obtain ⟨s, hslots, h⟩ := of_bind_ok h
  obtain ⟨cls, -, h⟩ := of_bind_ok h
  obtain ⟨uid, -, h⟩ := of_bind_ok h
  obtain ⟨as, has, h⟩ := of_bind_ok h
  cases h
  obtain ⟨e, he, hread⟩ := Wire.attributes_of_slots hQ hd hslots (Wire.of_present has)
  exact AttributeSet.isRead_of_ofDraft hQ he hc hread

end

/-- A set that was read: without marks, with points in time that their texts denote, and without
repeated names at any depth. -/
structure Wire.IsReadSet (s : AttributeSet) : Prop where
  recast_id : s.recast id = s
  denotable : s.meets .denotable = true
  wellFormed : s.meets .wellFormed = true

theorem Wire.IsReadSet.recast_denoted {s : AttributeSet} (h : IsReadSet s) :
    s.recast .denoted = s :=
  (AttributeSet.recast_denoted h.denotable).trans h.recast_id

theorem Wire.IsReadSet.distinct {s : AttributeSet} (h : IsReadSet s) : Keyed.Distinct s.toList :=
  of_decide_eq_true (AttributeSet.meets_iff.1 h.wellFormed).1

/-- Reading a written set: it is as it was, apart from marks and from points in time that their
texts do not denote, or there is a null in it. -/
theorem AttributeSet.ofJson_toJson {s : AttributeSet} (hs : s.meets .wellFormed = true) :
    AttributeSet.ofJson s.toJson = Wire.reread (s.meets .finite) (s.recast .denoted) := by
  rw [AttributeSet.meets_iff] at hs
  obtain ⟨hdistinct, hattributes⟩ := hs
  have hvalues (a : Attribute) (ha : a ∈ s.toList) : Wire.Rereads Value.ofDraft a.values :=
    fun v hv => Wire.valueWithin_ofJson false (Attribute.meets_iff.1 (hattributes a ha) v hv)
      (Nat.le_refl _)
  exact Wire.asAttributeSet_ofJson (of_decide_eq_true hdistinct) hvalues

theorem AttributeSet.isReadSet_of_ofJson {j : Json} {s : AttributeSet}
    (h : AttributeSet.ofJson j = .ok s) : Wire.IsReadSet s := by
  have hread {c : Condition} (hc : Wire.HoldsOfRead c fun _ => True) :
      s.recast id = s ∧ s.meets c = true :=
    AttributeSet.isRead_of_ofDraft Wire.hereditary_true trivial hc h
  obtain ⟨hrecast, hwell⟩ := hread (Wire.wellFormed_holdsOfRead _)
  exact ⟨hrecast, (hread (Wire.denotable_holdsOfRead _)).2, hwell⟩

end Provisioning
