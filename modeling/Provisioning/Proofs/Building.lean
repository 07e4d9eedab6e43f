import Provisioning.Proofs.Position
import Provisioning.Proofs.Sketch

/-!
# Decoding builds what is spelled

Decoding a document comes to spelling it and building the sketch: it fails where there is no sketch,
and where a constructor refuses a part it fails with that fault, the first in the order of building
(`decoding_builds`).
-/
namespace Provisioning

open Json (Draft)

namespace Wire

section

variable {σ τ α κ : Type} {step : σ → String → Option (Draft → Except Error σ)}
  {spell : τ → String → Option (Draft → Except Error τ)} {build : τ → Except Error σ}

/-- Steps over the same fields, of which one checks and the other does not. -/
structure StepsAgree (step : σ → String → Option (Draft → Except Error σ))
    (spell : τ → String → Option (Draft → Except Error τ)) (build : τ → Except Error σ) :
    Prop where
  built : ∀ t s key, build t = .ok s →
    (spell t key = none ∧ step s key = none) ∨
      ∃ f g, spell t key = some f ∧ step s key = some g ∧ ∀ d, Agrees build (f d) (g d)
  failed : ∀ t key f d t' e, build t = .error e → spell t key = some f → f d = .ok t' →
    build t' = .error e

namespace StepsAgree

variable (h : StepsAgree step spell build)

include h

theorem scan_failed {fs : List (Option String × Draft)} {t t' : τ} {e : Error}
    (ht : build t = .error e) (hscan : scan spell t fs = .ok t') : build t' = .error e :=
  scan_invariant (P := fun t => build t = .error e) (Q := fun _ => True)
    (fun t key f d t' ht _ hkey hf => h.failed t key f d t' e ht hkey hf) fs
    (fun _ _ => trivial) ht hscan

theorem scan (fs : List (Option String × Draft)) {t : τ} {s : σ} (ht : build t = .ok s) :
    Agrees build (scan spell t fs) (scan step s fs) := by
  induction fs generalizing t s with
  | nil => exact .of_ok ht
  | cons field fs ih =>
    obtain ⟨key, d⟩ := field
    cases key with
    | none => exact .unreadable _
    | some key =>
      rcases h.built t s key ht with ⟨hspell, hstep⟩ | ⟨f, g, hspell, hstep, hfg⟩
      · rw [Wire.scan, Wire.scan]
        simp only [hspell, hstep]
        split
        · exact ih ht
        · exact .unreadable _
      · rw [Wire.scan, Wire.scan]
        simp only [hspell, hstep]
        exact (hfg d).bind (fun t s hts => ih hts) fun t e t' hte => h.scan_failed hte

theorem fields (keys : List String) {t : τ} {s : σ} (ht : build t = .ok s) (d : Draft) :
    Agrees build (fields keys spell t d) (fields keys step s d) := by
  cases d with
  | object fs => exact h.scan fs ht
  | array items => exact h.scan _ ht
  | _ => exact .unreadable _

end StepsAgree

end

section

variable {α β κ : Type} {build : κ → Except Error α}

/-- What is built of a slot. -/
def buildSlot (build : κ → Except Error α) : Option κ → Except Error (Option α)
  | none => .ok none
  | some k => (build k).map some

theorem isSome_of_buildSlot {slot : Option κ} {built : Option α}
    (h : buildSlot build slot = .ok built) : slot.isSome = built.isSome := by
  cases slot with
  | none =>
    cases h
    rfl
  | some k =>
    obtain ⟨a, -, rfl⟩ := of_map_ok h
    rfl

theorem fill_agrees {spell : Draft → Except Error κ} {read : Draft → Except Error α}
    (h : ∀ d, Agrees build (spell d) (read d)) {slot : Option κ} {built : Option α}
    (hslot : slot.isSome = built.isSome) (d : Draft) :
    Agrees (buildSlot build) (fill slot spell d) (fill built read d) := by
  unfold fill
  rw [hslot]
  split
  · exact .unreadable _
  · exact (h d).map fun _ => rfl

/-- What is built of two fields, of which the first is kept as it is. -/
def buildPair (build : κ → Except Error α) (p : Option β × Option κ) :
    Except Error (Option β × Option α) :=
  (buildSlot build p.2).map (p.1, ·)

section

variable (k l : String) (first : Draft → Except Error β) {spell : Draft → Except Error κ}
  {second : Draft → Except Error α} (h : ∀ d, Agrees build (spell d) (second d))

include h

theorem pairStep_agrees :
    StepsAgree (pairStep k l first second) (pairStep k l first spell) (buildPair build) := by
  constructor
  · intro t s key hts
    obtain ⟨slot, hslot, rfl⟩ := of_map_ok hts
    unfold pairStep
    by_cases hk : key = k
    · refine .inr ⟨_, _, if_pos hk, if_pos hk, fun d => ?_⟩
      cases fill t.1 first d with
      | error e => exact ⟨e, rfl⟩
      | ok filled =>
        refine .of_ok ?_
        show (buildSlot build t.2).map (filled, ·) = .ok (filled, slot)
        rw [hslot]
        rfl
    · rw [if_neg hk, if_neg hk]
      by_cases hl : key = l
      · refine .inr ⟨_, _, if_pos hl, if_pos hl, fun d => ?_⟩
        exact (fill_agrees h (isSome_of_buildSlot hslot) d).map fun _ => rfl
      · exact .inl ⟨if_neg hl, if_neg hl⟩
  · intro t key f d t' e hte hf hfd
    have hslot := of_map_error hte
    unfold pairStep at hf
    split at hf
    · cases hf
      obtain ⟨filled, -, rfl⟩ := of_map_ok hfd
      show (buildSlot build t.2).map (filled, ·) = .error e
      rw [hslot]
      rfl
    · split at hf
      · cases hf
        -- only a slot that is filled can fail to be built
        cases ht : t.2 with
        | none =>
          rw [ht] at hslot
          cases hslot
        | some k =>
          rw [ht] at hfd
          cases hfd
      · cases hf

theorem pair_agrees (d : Draft) :
    Agrees (buildPair build) (pair k l first spell d) (pair k l first second d) :=
  (pairStep_agrees k l first h).fields [k, l] rfl d

end

end

section

variable {value : Draft → Except Error Value} {spell : Draft → Except Error Sketch}
  (h : ∀ d, Agrees Sketch.build (spell d) (value d))

include h

theorem asAttribute_agrees (d : Draft) :
    Agrees AttributeSketch.build (spellAttribute spell d) (asAttribute value d) := by
  refine (pair_agrees "name" "values" asText (asList_agrees h) d).bind (fun p q hpq => ?_)
    fun p e a hpe hpa => ?_
  · obtain ⟨name, values⟩ := p
    obtain ⟨slot, hslot, rfl⟩ := of_map_ok hpq
    cases name with
    | none => exact .unreadable _
    | some n =>
      cases values with
      | none =>
        cases hslot
        exact .unreadable _
      | some vs =>
        obtain ⟨ws, hws, rfl⟩ : ∃ ws, vs.mapM Sketch.build = .ok ws ∧ some ws = slot :=
          of_map_ok hslot
        show Comes (AttributeSketch.build ⟨n, vs⟩) (checked (Attribute.of? n ws))
        rw [AttributeSketch.build_mk, hws]
        exact comes_checked (blaming_attribute n ws)
  · obtain ⟨n, -, hpa⟩ := of_bind_ok hpa
    obtain ⟨vs, hvs, hpa⟩ := of_bind_ok hpa
    cases hpa
    have hslot := of_map_error hpe
    rw [of_present hvs] at hslot
    have hvalues : vs.mapM Sketch.build = .error e := of_map_error hslot
    rw [AttributeSketch.build_mk, hvalues]
    rfl

theorem asAttributeSet_agrees (d : Draft) :
    Agrees buildSet (asList (spellAttribute spell) d) (asAttributeSet value d) := by
  have hset := (asList_agrees (asAttribute_agrees h) d).make blaming_attributeSet
  rwa [← funext buildSet_eq] at hset

end

theorem asClass_agrees (d : Draft) : Agrees ObjectClass.of? (asText d) (asClass d) :=
  (Agrees.refl (asText d)).make blaming_objectClass

theorem asUid_agrees (d : Draft) : Agrees Uid.of? (asText d) (asUid d) :=
  (Agrees.refl (asText d)).make blaming_uid

/-- Whether the slot of a key is filled. -/
def Slots.has (s : Slots) : String → Bool
  | "object_class" => s.objectClass.isSome
  | "uid" => s.uid.isSome
  | "attributes" => s.attributes.isSome
  | _ => false

theorem has_of_buildField {s s' : Slots} {f : FieldSketch} (h : f.build s = .ok s') (key : String) :
    s'.has key = (s.has key || f.key == key) := by
  cases f with
  | objectClass text =>
    obtain ⟨c, -, rfl⟩ := of_map_ok h
    unfold Slots.has
    split <;> grind [FieldSketch.key]
  | uid text =>
    obtain ⟨u, -, rfl⟩ := of_map_ok h
    unfold Slots.has
    split <;> grind [FieldSketch.key]
  | attributes as =>
    obtain ⟨bs, -, h⟩ := of_bind_ok h
    obtain ⟨set, -, rfl⟩ := of_map_ok h
    unfold Slots.has
    split <;> grind [FieldSketch.key]

theorem has_of_buildFields {fs : List FieldSketch} {s s' : Slots} (h : buildFields s fs = .ok s')
    (key : String) : s'.has key = (s.has key || hasKey fs key) := by
  induction fs generalizing s with
  | nil =>
    cases h
    rw [hasKey, List.any_nil, Bool.or_false]
  | cons f fs ih =>
    obtain ⟨t, ht, h⟩ := of_bind_ok h
    rw [ih h, has_of_buildField ht, hasKey, hasKey, List.any_cons, Bool.or_assoc]

/-- The slots that are filled are those of the fields that were built. -/
theorem has_of_buildSlots {fs : List FieldSketch} {s : Slots} (h : buildSlots fs = .ok s)
    (key : String) : s.has key = hasKey fs key := by
  have hnone : Slots.has ⟨none, none, none⟩ key = false := by
    unfold Slots.has
    split <;> rfl
  rw [has_of_buildFields h, hnone, Bool.false_or]

theorem field_agrees {α κ : Type} {build : κ → Except Error α} {spell : Draft → Except Error κ}
    {read : Draft → Except Error α} (hread : ∀ d, Agrees build (spell d) (read d))
    {fs : List FieldSketch} {s : Slots} (hfs : buildSlots fs = .ok s) {key : String}
    {slot : Option α} (hslot : hasKey fs key = slot.isSome) {sketch : κ → FieldSketch}
    {put : Option α → Slots} (hput : ∀ k, (sketch k).build s = (build k).map fun a => put (some a))
    (d : Draft) :
    Agrees buildSlots
      (if hasKey fs key then unreadable else ((spell d).map sketch).map fun f => fs ++ [f])
      ((fill slot read d).map put) := by
  unfold fill
  rw [hslot]
  split
  · exact .unreadable _
  · rw [except_map_map, except_map_map]
    refine (hread d).map fun k => ?_
    rw [buildSlots_append, hfs]
    exact hput k

section

variable {keys : List String} {attributes : Draft → Except Error AttributeSet}
  {spell : Draft → Except Error (List AttributeSketch)}
  (h : ∀ d, Agrees buildSet (spell d) (attributes d))

include h

theorem slotStep_agrees :
    StepsAgree (slotStep keys attributes) (spellStep keys spell) buildSlots := by
  constructor
  · intro fs s key hfs
    have hhas := (has_of_buildSlots hfs key).symm
    by_cases hkey : key ∈ keys
    · by_cases hclass : key = "object_class"
      · subst hclass
        refine .inr ⟨_, _, if_pos hkey, slotStep_objectClass attributes s hkey, fun d => ?_⟩
        exact field_agrees asClass_agrees hfs hhas (fun _ => rfl) d
      · by_cases huid : key = "uid"
        · subst huid
          refine .inr ⟨_, _, if_pos hkey, slotStep_uid attributes s hkey, fun d => ?_⟩
          exact field_agrees asUid_agrees hfs hhas (fun _ => rfl) d
        · by_cases hattributes : key = "attributes"
          · subst hattributes
            refine .inr ⟨_, _, if_pos hkey, slotStep_attributes attributes s hkey, fun d => ?_⟩
            exact field_agrees h hfs hhas (FieldSketch.build_attributes s) d
          · have hfield : spellField spell key = none := by
              unfold spellField
              split <;> first | contradiction | rfl
            refine .inl ⟨by rw [spellStep, hfield, if_pos hkey, Option.map_none], ?_⟩
            unfold slotStep
            rw [if_pos hkey]
            split <;> first | contradiction | rfl
    · exact .inl ⟨if_neg hkey, if_neg hkey⟩
  · intro fs key f d fs' e hfs hf hfd
    unfold spellStep at hf
    split at hf
    · obtain ⟨read, -, rfl⟩ := Option.map_eq_some_iff.1 hf
      dsimp only at hfd
      split at hfd
      · cases hfd
      · obtain ⟨field, -, rfl⟩ := of_map_ok hfd
        rw [buildSlots_append, hfs]
        rfl
    · cases hf

theorem slots_agrees (keys : List String) (d : Draft) :
    Agrees buildSlots (fields keys (spellStep keys spell) [] d) (slots keys attributes d) :=
  (slotStep_agrees h).fields keys rfl d

end

theorem all_keys_iff {fs : List FieldSketch} {s : Slots} (h : buildSlots fs = .ok s)
    (keys : List String) : keys.all (hasKey fs) = true ↔ ∀ key ∈ keys, s.has key = true := by
  rw [List.all_eq_true]
  exact forall₂_congr fun key _ => by rw [has_of_buildSlots h]

section

variable {attributes : Draft → Except Error AttributeSet}
  {spell : Draft → Except Error (List AttributeSketch)}
  (h : ∀ d, Agrees buildSet (spell d) (attributes d))

include h

/-- Reading the fields of an object and putting them together, which takes a slot for each key. -/
theorem spellFields_agrees {α : Type} {keys : List String} {assemble : Slots → Except Error α}
    (hassemble : ∀ s, (∃ a, assemble s = .ok a) ↔ ∀ key ∈ keys, s.has key = true) (d : Draft) :
    Agrees (fun fs => buildSlots fs >>= assemble) (spellFields keys spell d)
      (slots keys attributes d >>= assemble) := by
  refine (slots_agrees h keys d).bind (fun fs s hfs => ?_) fun fs e gs hfs hgs => ?_
  · cases hresult : assemble s with
    | ok a =>
      have hall := (all_keys_iff hfs keys).2 ((hassemble s).1 ⟨a, hresult⟩)
      rw [if_pos hall]
      refine .of_ok ?_
      rw [hfs]
      exact hresult
    | error e =>
      have hall : ¬ keys.all (hasKey fs) = true := fun hall => by
        obtain ⟨a, ha⟩ := (hassemble s).2 ((all_keys_iff hfs keys).1 hall)
        rw [hresult] at ha
        cases ha
      rw [if_neg hall]
      exact ⟨e, rfl⟩
  · split at hgs
    · cases hgs
      rw [hfs]
      rfl
    · cases hgs

end

theorem object_eq_ok_iff (s : Slots) :
    (∃ o, s.object = .ok o) ↔ ∀ key ∈ objectKeys, s.has key = true := by
  obtain ⟨c, u, as⟩ := s
  cases c <;> cases as <;>
    simp [Slots.object, present, objectKeys, Slots.has, unreadable, bind, Except.bind, pure,
      Except.pure]

theorem record_eq_ok_iff (s : Slots) :
    (∃ r, s.record = .ok r) ↔ ∀ key ∈ recordKeys, s.has key = true := by
  obtain ⟨c, u, as⟩ := s
  cases c <;> cases u <;> cases as <;>
    simp [Slots.record, present, recordKeys, Slots.has, unreadable, bind, Except.bind, pure,
      Except.pure]

/-- What is built of the state in which a value is read. -/
def TagState.build {α κ : Type} (build : κ → Except Error α) :
    TagState κ → Except Error (TagState α)
  | .start => .ok .start
  | .tagged kind => .ok (.tagged kind)
  | .stored content => .ok (.stored content)
  | .done k => (build k).map .done

section

variable {α κ : Type} {build : κ → Except Error α}
  {spell : Bool → ValueKind → Draft → Except Error κ}
  {content : Bool → ValueKind → Draft → Except Error α}
  (h : ∀ kept kind d, Agrees build (spell kept kind d) (content kept kind d))

include h

omit h in
theorem tagStep_eq_none (kept : Bool) (s : TagState α) {key : String} (htype : key ≠ "type")
    (hvalue : key ≠ "value") : tagStep kept content s key = none := by
  unfold tagStep
  split <;> first | contradiction | rfl

theorem tagStep_agrees (kept : Bool) :
    StepsAgree (tagStep kept content) (tagStep kept spell) (TagState.build build) := by
  constructor
  · intro t s key hts
    by_cases htype : key = "type"
    · subst htype
      right
      cases t with
      | start =>
        cases hts
        refine ⟨_, _, rfl, rfl, fun d => ?_⟩
        exact (Agrees.refl (asKind kept d)).map fun _ => rfl
      | tagged kind =>
        cases hts
        exact ⟨_, _, rfl, rfl, fun d => .unreadable _⟩
      | stored c =>
        cases hts
        refine ⟨_, _, rfl, rfl, fun d => ?_⟩
        cases asKind kept d with
        | error e => exact ⟨e, rfl⟩
        | ok kind => exact (h true kind c).map fun _ => rfl
      | done k =>
        obtain ⟨a, -, rfl⟩ := of_map_ok hts
        exact ⟨_, _, rfl, rfl, fun d => .unreadable _⟩
    · by_cases hvalue : key = "value"
      · subst hvalue
        right
        cases t with
        | start =>
          cases hts
          refine ⟨_, _, rfl, rfl, fun d => ?_⟩
          split
          · exact .of_ok rfl
          · exact .unreadable _
        | tagged kind =>
          cases hts
          exact ⟨_, _, rfl, rfl, fun d => (h kept kind d).map fun _ => rfl⟩
        | stored c =>
          cases hts
          exact ⟨_, _, rfl, rfl, fun d => .unreadable _⟩
        | done k =>
          obtain ⟨a, -, rfl⟩ := of_map_ok hts
          exact ⟨_, _, rfl, rfl, fun d => .unreadable _⟩
      · exact .inl ⟨tagStep_eq_none kept t htype hvalue, tagStep_eq_none kept s htype hvalue⟩
  · intro t key f d t' e hte hf hfd
    cases t with
    | done k =>
      -- nothing can follow content that was read
      unfold tagStep at hf
      split at hf <;> first | contradiction | cases hf
      · cases hfd
      · cases hfd
    | _ => cases hte

theorem tagged_agrees (kept : Bool) (d : Draft) :
    Agrees build (tagged kept spell d) (tagged kept content d) := by
  cases d with
  | object fs =>
    refine ((tagStep_agrees h kept).scan fs rfl).bind (fun t s hts => ?_) fun t e k hte hk => ?_
    · cases t with
      | done k =>
        obtain ⟨a, ha, rfl⟩ := of_map_ok hts
        exact .of_ok ha
      | _ =>
        cases hts
        exact .unreadable _
    · cases t with
      | done k =>
        cases hk
        exact of_map_error hte
      | _ => cases hk
  | array items =>
    match items with
    | [] => exact .unreadable _
    | [_] => exact .unreadable _
    | t :: c :: rest =>
      refine (Agrees.refl (asListedKind kept t)).bind (fun kind _ hkind => ?_)
        fun _ _ _ hkind _ => by cases hkind
      cases hkind
      refine (h kept kind c).bind (fun k a hk => ?_) fun k e l hk hl => ?_
      · split
        · exact .of_ok hk
        · exact .unreadable _
      · split at hl
        · cases hl
          exact hk
        · cases hl
  | _ => exact .unreadable _

end

theorem build_object (fs : List FieldSketch) :
    Sketch.build (.object fs) = (buildSlots fs >>= Slots.object).map .ofObject := by
  rw [Sketch.build, buildSlots]
  cases buildFields ⟨none, none, none⟩ fs with
  | error e => rfl
  | ok s =>
    show (s.object >>= fun o => Except.ok (Value.ofObject o)) = s.object.map .ofObject
    cases s.object <;> rfl

section

variable {value : Draft → Except Error Value} {spell : Draft → Except Error Sketch}
  (h : ∀ d, Agrees Sketch.build (spell d) (value d))

include h

theorem asObject_agrees (d : Draft) :
    Agrees buildObject (spellFields objectKeys (asList (spellAttribute spell)) d)
      (asObject value d) :=
  spellFields_agrees (asAttributeSet_agrees h) object_eq_ok_iff d

theorem contentOf_agrees (kind : ValueKind) (d : Draft) :
    Agrees Sketch.build (spellContent spell kind d) (contentOf value kind d) := by
  have hscalar (r : Except Error Value) : Agrees Sketch.build (r.map .content) r := by
    cases r with
    | error e => exact ⟨e, rfl⟩
    | ok v => exact .of_ok (by rw [Sketch.build])
  cases kind with
  | embedded => exact (asObject_agrees h d).map build_object
  | _ => exact hscalar _

end

theorem valueWithin_agrees (depth : Nat) (kept : Bool) (d : Draft) :
    Agrees Sketch.build (spellWithin depth kept d) (valueWithin depth kept d) := by
  induction depth generalizing kept d with
  | zero => exact .unreadable _
  | succ depth ih =>
    rw [spellWithin, valueWithin]
    exact tagged_agrees (fun kept kind d => contentOf_agrees (ih kept) kind d) kept d

end Wire

/-- How a type is read whose documents are spelled before constructors build them. What is read is
what they build, and where one of them refuses a part, reading fails with the message of its fault.
That is shown as it is, unless it ends in a position that is in line 0 or not written as usual. -/
structure Builds {α κ : Type} (read : Draft → Except Error α) (spell : Draft → Except Error κ)
    (build : κ → Except Error α) (valid : α → Prop) : Prop where
  built : ∀ d a, read d = .ok a → valid a ∧ ∃ k, spell d = .ok k ∧ build k = .ok a
  accepted : ∀ d k a, spell d = .ok k → build k = .ok a → read d = .ok a
  refused : ∀ d k e, spell d = .ok k → build k = .error e →
    ∃ fault text shown, e = .invalidArgument fault ∧
      read d = .error (.document (.invalid fault)) ∧ e.message = some text ∧
      (Error.document (.invalid fault)).message = some ("JSON error: " ++ shown) ∧
      Text.Shows text shown ∧
      (shown = text ↔ ∀ rest line column, Text.EndsAt text rest line column →
        line ≠ 0 ∧ text = Text.withPosition rest line column)

theorem Builds.of_agrees {α κ : Type} {read : Draft → Except Error α}
    {spell : Draft → Except Error κ} {build : κ → Except Error α} {valid : α → Prop}
    (h : ∀ d, Wire.Agrees build (spell d) (read d)) (hvalid : ∀ d a, read d = .ok a → valid a) :
    Builds read spell build valid := by
  constructor
  · intro d a ha
    have hagrees := h d
    rw [ha] at hagrees
    exact ⟨hvalid d a ha, hagrees.built⟩
  · intro d k a hspell hbuild
    have hcomes := (h d).comes hspell
    rw [hbuild] at hcomes
    generalize read d = result at hcomes
    cases hcomes
    rfl
  · intro d k e hspell hbuild
    have hcomes := (h d).comes hspell
    rw [hbuild] at hcomes
    generalize read d = result at hcomes
    cases hcomes with
    | refused fault =>
      exact ⟨fault, _, _, rfl, rfl, rfl, rfl, Text.shows_shown fault.invalidArgumentText,
        Text.shown_eq_self_iff fault.invalidArgumentText⟩

/-- Documents of every kind are read as what they spell is built, an attribute when its values are
there and a set when all of its attributes are. No set that is read repeats a name, at any depth,
and no name is blank, which the type of names says of those inside. -/
theorem decoding_builds :
    Builds Value.ofDraft Sketch.ofDraft Sketch.build (fun v => v.meets .wellFormed = true) ∧
    Builds Attribute.ofDraft AttributeSketch.ofDraft AttributeSketch.build
      (fun a => a.meets .wellFormed = true) ∧
    Builds AttributeSet.ofDraft spellSet buildSet (fun s => s.meets .wellFormed = true) ∧
    Builds EmbeddedObject.ofDraft spellObject buildObject
      (fun o => AttributeSet.meets .wellFormed o.attributes = true) ∧
    Builds Record.ofDraft spellRecord buildRecord
      (fun r => r.attributes.meets .wellFormed = true) ∧
    Builds ObjectClass.ofDraft Wire.asText ObjectClass.of? (fun c => Text.isBlank c.text = false) ∧
    Builds Uid.ofDraft Wire.asText Uid.of? (fun u => Text.isBlank u.text = false) ∧
    (∀ n vs, AttributeSketch.build ⟨n, vs⟩ =
      vs.mapM Sketch.build >>= fun vs => Attribute.of? n vs) ∧
    ∀ as, buildSet as = as.mapM AttributeSketch.build >>= fun as => AttributeSet.of? as := by
  have hQ := Wire.hereditary_true
  have hc := Wire.wellFormed_holdsOfRead fun _ => True
  have hvalue (d : Draft) : Wire.Agrees Sketch.build (Sketch.ofDraft d) (Value.ofDraft d) :=
    Wire.valueWithin_agrees d.height false d
  have hset := Wire.asAttributeSet_agrees hvalue
  refine ⟨.of_agrees hvalue fun _ _ h => (Value.isRead_of_ofDraft hQ trivial hc h).2,
    .of_agrees (Wire.asAttribute_agrees hvalue) fun _ _ h =>
      (Attribute.isRead_of_ofDraft hQ trivial hc h).2,
    .of_agrees hset fun _ _ h => (AttributeSet.isRead_of_ofDraft hQ trivial hc h).2,
    .of_agrees (Wire.asObject_agrees hvalue) fun _ _ h =>
      (EmbeddedObject.isRead_of_ofDraft hQ trivial hc h).2,
    .of_agrees (Wire.spellFields_agrees hset Wire.record_eq_ok_iff) fun _ _ h =>
      (Record.isRead_of_ofDraft hQ trivial hc h).2,
    .of_agrees Wire.asClass_agrees fun _ c _ => c.name.filled,
    .of_agrees Wire.asUid_agrees fun _ u _ => u.name.filled, AttributeSketch.build_mk, buildSet_eq⟩

/-- A value with two attributes whose common name ends in a position in line 0. -/
def twins : Json :=
  let twin := .object [("name", .string "x at line 0 column 0"), ("values", .array [])]
  .array [.string "embedded",
    .object [("attributes", .array [twin, twin]), ("object_class", .string "c")]]

/-- Reading them does not give the whole message of the fault: the position is left out. -/
theorem twins_lose_position :
    ∃ k fault e, Sketch.ofDraft (.ofJson twins) = .ok k ∧
      k.build = .error (.invalidArgument fault) ∧
      (Error.invalidArgument fault).message =
        some "Invalid argument: Duplicated named attributes: x at line 0 column 0" ∧
      Value.ofJson twins = .error e ∧
      e.message = some "JSON error: Invalid argument: Duplicated named attributes: x" ∧
      e.message ≠ (Error.invalidArgument fault).message.map ("JSON error: " ++ ·) := by
  let twin : AttributeSketch := ⟨"x at line 0 column 0", []⟩
  let fault : Fault := .repeatedAttribute "x at line 0 column 0"
  exact ⟨.object [.attributes [twin, twin], .objectClass "c"], fault, .document (.invalid fault),
    rfl, rfl, rfl, rfl, by decide, by decide⟩

end Provisioning
