import Provisioning.Proofs.Tree

/-!
# JSON forms lose nothing

What can be written is read back as it was, apart from marks, and what was read of any draft is the
same when it is written and read once more (`json_roundTrips`). Doubles can be written if they are
finite, and points in time if their texts denote them; those that are read always do.
-/
namespace Provisioning

open Json (Draft)

/-- How a type is written and read: what can be written is read back as its copy, and what is read,
of a tree or of a text, is read back unchanged when it is written again. -/
structure RoundTrips {α : Type} (write : α → Json) (read : Draft → Except Error α)
    (writable : α → Prop) (copy : α → α) : Prop where
  written : ∀ a, writable a → decodeJson read (write a) = .ok (copy a)
  again : ∀ d a, d.numbersFit = true → read d = .ok a → decodeJson read (write a) = .ok a

namespace RoundTrips

variable {α : Type} {write : α → Json} {read : Draft → Except Error α} {writable : α → Prop}
  {copy : α → α}

/-- What is read can be written, and is its own copy. -/
theorem of_read (written : ∀ a, writable a → decodeJson read (write a) = .ok (copy a))
    (hread : ∀ d a, d.numbersFit = true → read d = .ok a → writable a ∧ copy a = a) :
    RoundTrips write read writable copy := by
  refine ⟨written, fun d a hd ha => ?_⟩
  obtain ⟨hwritable, hcopy⟩ := hread d a hd ha
  rw [written a hwritable, hcopy]

/-- Everything can be written, and is its own copy. -/
theorem exact (written : ∀ a, decodeJson read (write a) = .ok a) :
    RoundTrips write read (fun _ => True) id :=
  of_read (fun a _ => written a) fun _ _ _ _ => ⟨trivial, rfl⟩

end RoundTrips

/-- Values can be written if no name is repeated in an object, no double is a NaN or an infinity,
and the text of every point in time is read as that point, at any depth. -/
def Value.Writable (v : Value) : Prop :=
  v.meets .wellFormed = true ∧ v.meets .finite = true ∧ v.meets .denotable = true

def Attribute.Writable (a : Attribute) : Prop :=
  a.meets .wellFormed = true ∧ a.meets .finite = true ∧ a.meets .denotable = true

def AttributeSet.Writable (s : AttributeSet) : Prop :=
  s.meets .wellFormed = true ∧ s.meets .finite = true ∧ s.meets .denotable = true

theorem Value.rereads {a : Attribute} (ha : a.meets .wellFormed = true) :
    Wire.Rereads Value.ofDraft a.values :=
  fun v hv => Wire.valueWithin_ofJson false (Attribute.meets_iff.1 ha v hv) (Nat.le_refl _)

/-- What meets any condition that holds of what is read can be written. -/
theorem writable_of_read {α : Type} {read : Draft → Except Error α} {copy : α → α}
    (meets : Condition → α → Prop)
    (h : ∀ c, (Wire.HoldsOfRead c fun d => d.numbersFit = true) → ∀ d a, d.numbersFit = true →
      read d = .ok a → copy a = a ∧ meets c a)
    (d : Draft) (a : α) (hd : d.numbersFit = true) (ha : read d = .ok a) :
    (meets .wellFormed a ∧ meets .finite a ∧ meets .denotable a) ∧ copy a = a := by
  obtain ⟨hcopy, hwell⟩ := h _ (Wire.wellFormed_holdsOfRead _) d a hd ha
  exact ⟨⟨hwell, (h _ Wire.finite_holdsOfRead d a hd ha).2,
    (h _ (Wire.denotable_holdsOfRead _) d a hd ha).2⟩, hcopy⟩

theorem Value.roundTrips :
    RoundTrips Value.toJson Value.ofDraft Value.Writable (Value.recast id) := by
  refine .of_read (fun v hv => ?_) (writable_of_read (fun c (v : Value) => v.meets c = true)
    fun c hc d v hd h => isRead_of_ofDraft Draft.hereditary_numbersFit hd hc h)
  obtain ⟨hwell, hfinite, hdenotable⟩ := hv
  have hread := Wire.valueWithin_ofJson false hwell (Nat.le_refl _)
  rw [hfinite, Value.recast_denoted hdenotable] at hread
  exact hread

theorem Attribute.roundTrips :
    RoundTrips Attribute.toJson Attribute.ofDraft Attribute.Writable (Attribute.recast id) := by
  refine .of_read (fun a ha => ?_) (writable_of_read (fun c (a : Attribute) => a.meets c = true)
    fun c hc d a hd h => isRead_of_ofDraft Draft.hereditary_numbersFit hd hc h)
  obtain ⟨hwell, hfinite, hdenotable⟩ := ha
  have hread := Wire.asAttribute_ofJson (Value.rereads hwell)
  rw [hfinite, Attribute.recast_denoted hdenotable] at hread
  exact hread

theorem AttributeSet.roundTrips :
    RoundTrips AttributeSet.toJson AttributeSet.ofDraft AttributeSet.Writable
      (AttributeSet.recast id) := by
  refine .of_read (fun s hs => ?_) (writable_of_read (fun c (s : AttributeSet) => s.meets c = true)
    fun c hc d s hd h => isRead_of_ofDraft Draft.hereditary_numbersFit hd hc h)
  obtain ⟨hwell, hfinite, hdenotable⟩ := hs
  have hread := AttributeSet.ofJson_toJson hwell
  rw [hfinite, AttributeSet.recast_denoted hdenotable] at hread
  exact hread

theorem EmbeddedObject.roundTrips :
    RoundTrips EmbeddedObject.toJson EmbeddedObject.ofDraft
      (fun o => AttributeSet.Writable o.attributes) (EmbeddedObject.recast id) := by
  refine .of_read (fun o ho => ?_)
    (writable_of_read (fun c (o : EmbeddedObject) => AttributeSet.meets c o.attributes = true)
      fun c hc d o hd h => isRead_of_ofDraft Draft.hereditary_numbersFit hd hc h)
  obtain ⟨hwell, hfinite, hdenotable⟩ := ho
  rw [AttributeSet.meets_iff] at hwell hfinite
  have hread := Wire.asObject_ofJson (of_decide_eq_true hwell.1) fun a ha =>
    Value.rereads (hwell.2 a ha)
  rw [attributesMeet_iff.2 hfinite.2, EmbeddedObject.recast_denoted hdenotable] at hread
  exact hread

/-- An object without the marks in it, and with other points in time. -/
def Record.recast (time : Instant → Instant) (r : Record) : Record :=
  { r with attributes := r.attributes.recast time }

theorem Wire.asUid_text (u : Uid) : asUid (.string u.text) = .ok u := by
  show checked (Uid.of? u.text) = _
  rw [Uid.of?_text]
  rfl

theorem Wire.slots_record (attributes : Draft → Except Error AttributeSet) (d : Draft)
    (c : ObjectClass) (u : Uid) :
    slots recordKeys attributes
        (.object [(some "attributes", d), (some "object_class", .string c.text),
          (some "uid", .string u.text)]) =
      (attributes d).map fun as => ⟨some c, some u, some as⟩ := by
  have hattributes : "attributes" ∈ recordKeys := by decide
  have hclass : "object_class" ∈ recordKeys := by decide
  have huid : "uid" ∈ recordKeys := by decide
  simp only [slots, fields, scan, slotStep_attributes _ _ hattributes,
    slotStep_objectClass _ _ hclass, slotStep_uid _ _ huid, fill, Option.isSome_none,
    Bool.false_eq_true, ↓reduceIte, asClass_text, asUid_text]
  cases attributes d <;> rfl

theorem Record.roundTrips :
    RoundTrips Record.toJson Record.ofDraft (fun r => r.attributes.Writable)
      (Record.recast id) := by
  refine .of_read (fun r hr => ?_)
    (writable_of_read (fun c (r : Record) => r.attributes.meets c = true) fun c hc d r hd h => ?_)
  · have hread := AttributeSet.roundTrips.written r.attributes hr
    have hdraft : Draft.ofJson r.toJson =
        .object [(some "attributes", Draft.ofJson r.attributes.toJson),
          (some "object_class", .string r.objectClass.text), (some "uid", .string r.uid.text)] := by
      simp only [Record.toJson, Draft.ofJson, Draft.ofFields, ObjectClass.toJson, Uid.toJson]
    rw [decodeJson] at hread ⊢
    rw [hdraft, Record.ofDraft, Wire.slots_record, hread]
    rfl
  · obtain ⟨hrecast, hmeets⟩ := isRead_of_ofDraft Draft.hereditary_numbersFit hd hc h
    exact ⟨by rw [Record.recast, hrecast], hmeets⟩

theorem ObjectClass.roundTrips :
    RoundTrips ObjectClass.toJson ObjectClass.ofDraft (fun _ => True) id :=
  .exact Wire.asClass_text

theorem Uid.roundTrips : RoundTrips Uid.toJson Uid.ofDraft (fun _ => True) id :=
  .exact Wire.asUid_text

theorem Wire.asList_strings (names : List String) :
    asList asText (Draft.ofJson (.strings names)) = .ok names := by
  have h : asList asText (Draft.ofJson (.array (names.map .string))) =
      reread (names.all fun _ => true) (names.map id) :=
    asList_ofJson fun _ _ => rfl
  rw [List.all_eq_true.2 fun _ _ => rfl, List.map_id] at h
  exact h

theorem Config.roundTrips : RoundTrips Config.toJson Config.ofDraft (fun _ => True) id := by
  refine .exact fun c => ?_
  have hdraft : Draft.ofJson c.toJson =
      .object [(some "emulateComplexDelta", .bool c.emulateDeltas),
        (some "operationalAttributes", Draft.ofJson (.strings c.operational))] := by
    simp only [Config.toJson, Draft.ofJson, Draft.ofFields]
  rw [decodeJson, hdraft, Config.ofDraft, Wire.pair_swapped (by decide), Wire.asList_strings]
  rfl

section

variable {α β : Type} {k l : String} (first : Draft → Except Error α)
  (second : Draft → Except Error β) (d : Draft)

theorem Wire.pair_first :
    pair k l first second (.object [(some k, d)]) = (first d).map fun a => (some a, none) := by
  simp only [pair, fields, scan, pairStep, fill, ↓reduceIte, Option.isSome_none, Bool.false_eq_true]
  cases first d <;> rfl

theorem Wire.pair_second (hkl : k ≠ l) :
    pair k l first second (.object [(some l, d)]) = (second d).map fun b => (none, some b) := by
  simp only [pair, fields, scan, pairStep, fill, ↓reduceIte, Option.isSome_none, Bool.false_eq_true,
    hkl.symm]
  cases second d <;> rfl

end

namespace Options

/-- Whether settings are trees with their keys in order. -/
def Writable (o : Options) : Prop := ∀ e ∈ o.settings.entries, e.2.Canonical

theorem settings_eq_empty {settings : Table Json} (h : settings.isEmpty = true) :
    settings = Table.empty := by
  obtain ⟨entries, hentries⟩ := settings
  cases entries with
  | nil => rfl
  | cons e entries => cases h

theorem ofDraft_toJson {o : Options} (ho : o.Writable) :
    decodeJson Options.ofDraft o.toJson = .ok o := by
  obtain ⟨names, settings⟩ := o
  have hsettings := Draft.fieldsToJson?_ofFields settings.entries (Json.fieldsCanonical_iff.2 ho)
  have hkeys : "attributesToGet" ≠ "options" := by decide
  unfold Options.toJson decodeJson Options.ofDraft
  cases names with
  | none =>
    by_cases h : settings.isEmpty = true
    · cases settings_eq_empty h
      rfl
    · simp only [h, Bool.false_eq_true, ↓reduceIte, List.nil_append, Draft.ofJson, Draft.ofFields,
        Wire.pair_second _ _ _ hkeys, hsettings, Table.ofList_entries]
      rfl
  | some names =>
    obtain ⟨items, hitems⟩ : ∃ items, Draft.ofJson (.strings names) = .array items :=
      ⟨Draft.ofItems (names.map .string), by rw [Json.strings, Draft.ofJson]⟩
    have hnames := Wire.asList_strings names
    rw [hitems] at hnames
    by_cases h : settings.isEmpty = true
    · cases settings_eq_empty h
      simp only [h, ↓reduceIte, List.append_nil, Draft.ofJson_object, Draft.ofFields, hitems,
        Wire.pair_first, hnames]
      rfl
    · simp only [h, Bool.false_eq_true, ↓reduceIte, List.cons_append, List.nil_append,
        Draft.ofJson_object, Draft.ofFields, hitems, Wire.pair_inOrder hkeys, hnames, hsettings,
        Table.ofList_entries]
      rfl

/-- Settings that are read are trees with their keys in order. -/
theorem writable_of_ofDraft {d : Draft} {o : Options} (h : Options.ofDraft d = .ok o) :
    o.Writable := by
  obtain ⟨p, hpair, h⟩ := of_bind_ok h
  cases h
  cases hsettings : p.2 with
  | none =>
    intro e he
    cases he
  | some settings =>
    obtain ⟨e, -, hread⟩ := (Wire.filled_of_pair Wire.hereditary_true trivial hpair).2 settings
      hsettings
    cases e with
    | object fs =>
      dsimp only at hread
      split at hread
      · rename_i entries hentries
        cases hread
        exact fun f hf => Json.fieldsCanonical_iff.1 (Draft.canonical_of_fieldsToJson? fs hentries)
          f (Table.mem_ofList hf)
      · cases hread
    | _ => cases hread

theorem roundTrips : RoundTrips Options.toJson Options.ofDraft Writable id :=
  .of_read (fun _ => ofDraft_toJson) fun _ _ _ h => ⟨writable_of_ofDraft h, rfl⟩

end Options

theorem Operation.ofDraft_label (op : Operation) :
    Operation.ofDraft (.string op.label) = .ok op := by
  cases op <;> rfl

/-- The operations of a resource may be listed in any order, and more than once. -/
theorem Capabilities.ofDraft_listed (ops : List Operation) :
    decodeJson Capabilities.ofDraft (.object [("operations", .array (ops.map Operation.toJson))]) =
      .ok (.ofList ops) := by
  have hlist : Wire.asList Operation.ofDraft (Draft.ofJson (.array (ops.map Operation.toJson))) =
      Wire.reread (ops.all fun _ => true) (ops.map id) :=
    Wire.asList_ofJson fun op _ => op.ofDraft_label
  rw [List.all_eq_true.2 fun _ _ => rfl, List.map_id] at hlist
  rw [decodeJson, Draft.ofJson, Draft.ofFields, Draft.ofFields, Capabilities.ofDraft]
  simp only [Wire.fields, Wire.scan, Wire.fill, hlist, ↓reduceIte]
  rfl

theorem Capabilities.roundTrips :
    RoundTrips Capabilities.toJson Capabilities.ofDraft (fun _ => True) id := by
  refine .exact fun c => ?_
  rw [Capabilities.toJson, ofDraft_listed, ofList_toList]

/-- Attributes, values and objects come back without their marks and otherwise as they were, with
their names as spelled and everything in its place, if no double is a NaN or an infinity and the
text of every point in time is read as that point. Names of
classes, uids, options, configurations and capabilities come back as they were, the operations of a
resource from any listing of them. What is read of any draft is the same when it is written and read
again. -/
theorem json_roundTrips :
    RoundTrips Value.toJson Value.ofDraft Value.Writable (Value.recast id) ∧
    RoundTrips Attribute.toJson Attribute.ofDraft Attribute.Writable (Attribute.recast id) ∧
    RoundTrips AttributeSet.toJson AttributeSet.ofDraft AttributeSet.Writable
      (AttributeSet.recast id) ∧
    RoundTrips EmbeddedObject.toJson EmbeddedObject.ofDraft
      (fun o => AttributeSet.Writable o.attributes) (EmbeddedObject.recast id) ∧
    RoundTrips Record.toJson Record.ofDraft (fun r => r.attributes.Writable) (Record.recast id) ∧
    RoundTrips ObjectClass.toJson ObjectClass.ofDraft (fun _ => True) id ∧
    RoundTrips Uid.toJson Uid.ofDraft (fun _ => True) id ∧
    RoundTrips Options.toJson Options.ofDraft Options.Writable id ∧
    RoundTrips Config.toJson Config.ofDraft (fun _ => True) id ∧
    RoundTrips Capabilities.toJson Capabilities.ofDraft (fun _ => True) id ∧
    ∀ ops : List Operation,
      decodeJson Capabilities.ofDraft
          (.object [("operations", .array (ops.map Operation.toJson))]) =
        .ok (.ofList ops) :=
  ⟨Value.roundTrips, Attribute.roundTrips, AttributeSet.roundTrips, EmbeddedObject.roundTrips,
    Record.roundTrips, ObjectClass.roundTrips, Uid.roundTrips, Options.roundTrips,
    Config.roundTrips, Capabilities.roundTrips, Capabilities.ofDraft_listed⟩

/-- A team that nobody is in and that has no tags. -/
def team : AttributeSet :=
  let members : Attribute := ⟨⟨"Members", by decide⟩, []⟩
  let rank : Attribute := ⟨⟨"rank", by decide⟩, [.double (.zero true), .integer 0]⟩
  ⟨[⟨⟨"Team", by decide⟩, [.ofObject ⟨.group, ⟨[members, rank]⟩⟩, .boolean true]⟩,
    ⟨⟨"tags", by decide⟩, []⟩]⟩

theorem team_roundTrips :
    team.Writable ∧ decodeJson AttributeSet.ofDraft team.toJson = .ok team := by
  have hteam : team.Writable := ⟨by decide, by decide, by decide⟩
  exact ⟨hteam, json_roundTrips.2.2.1.written team hteam⟩

end Provisioning
