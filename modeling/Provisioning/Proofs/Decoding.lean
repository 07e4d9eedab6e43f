import Provisioning.Proofs.Sketch

/-!
# What decoding blames

A decoder that fails says what is wrong with the document, and never that something is wrong with a
request or with a resource. A reader blames the document if the readers do that it calls; what
constructors refuse it blames on the document too (`blamesDocument_checked`).
-/
namespace Provisioning

open Json (Draft)

namespace Wire

variable {α β σ : Type}

/-- A result that is an error only for a fault of a document. -/
def BlamesDocument (r : Except Error α) : Prop :=
  ∀ e, r = .error e → ∃ fault, e = .document fault

theorem blamesDocument_ok (a : α) : BlamesDocument (.ok a) := by
  intro e h
  cases h

theorem blamesDocument_unreadable : BlamesDocument (unreadable : Except Error α) :=
  fun _ h => ⟨.unreadable, (Except.error.inj h).symm⟩

theorem blamesDocument_checked {made : Except Error α} (h : Blaming made) :
    BlamesDocument (checked made) := by
  cases made with
  | ok a => exact blamesDocument_ok a
  | error e =>
    obtain ⟨fault, rfl⟩ := h e rfl
    exact fun _ he => ⟨.invalid fault, (Except.error.inj he).symm⟩

namespace BlamesDocument

theorem map {r : Except Error α} (h : BlamesDocument r) (f : α → β) : BlamesDocument (r.map f) :=
  fun e he => h e (of_map_error he)

theorem bind {r : Except Error α} {next : α → Except Error β} (h : BlamesDocument r)
    (hnext : ∀ a, BlamesDocument (next a)) : BlamesDocument (r >>= next) := by
  cases r with
  | error e =>
    intro e' he
    cases he
    exact h e rfl
  | ok a => exact hnext a

end BlamesDocument

theorem blamesDocument_asText (d : Draft) : BlamesDocument (asText d) := by
  cases d with
  | string s => exact blamesDocument_ok s
  | _ => exact blamesDocument_unreadable

theorem blamesDocument_asBool (d : Draft) : BlamesDocument (asBool d) := by
  cases d with
  | bool b => exact blamesDocument_ok b
  | _ => exact blamesDocument_unreadable

theorem blamesDocument_asInteger (least most : Int) (d : Draft) :
    BlamesDocument (asInteger least most d) := by
  unfold asInteger
  split
  · split
    · exact blamesDocument_ok _
    · exact blamesDocument_unreadable
  · exact blamesDocument_unreadable

theorem blamesDocument_asDouble (d : Draft) : BlamesDocument (asDouble d) := by
  unfold asDouble
  split
  · exact blamesDocument_ok _
  · exact blamesDocument_ok _
  · exact fun _ he => ⟨.nullNumber, (Except.error.inj he).symm⟩
  · exact blamesDocument_unreadable

theorem blamesDocument_mapM {item : Draft → Except Error α} (h : ∀ d, BlamesDocument (item d))
    (ds : List Draft) : BlamesDocument (ds.mapM item) := by
  induction ds with
  | nil => exact blamesDocument_ok []
  | cons d ds ih =>
    rw [List.mapM_cons]
    exact (h d).bind fun _ => ih.bind fun _ => blamesDocument_ok _

theorem blamesDocument_asList {item : Draft → Except Error α} (h : ∀ d, BlamesDocument (item d))
    (d : Draft) : BlamesDocument (asList item d) := by
  cases d with
  | array items => exact blamesDocument_mapM h items
  | _ => exact blamesDocument_unreadable

theorem blamesDocument_asWord (words : List (String × α)) (d : Draft) :
    BlamesDocument (asWord words d) := by
  unfold asWord
  split
  · split
    · exact blamesDocument_ok _
    · exact blamesDocument_unreadable
  · split
    · exact blamesDocument_ok _
    · exact blamesDocument_unreadable
  · exact blamesDocument_unreadable

/-- A step that reads each field it knows with a reader that blames the document. -/
def StepBlames (step : σ → String → Option (Draft → Except Error σ)) : Prop :=
  ∀ s key read, step s key = some read → ∀ d, BlamesDocument (read d)

theorem StepBlames.scan {step : σ → String → Option (Draft → Except Error σ)} (h : StepBlames step)
    (fs : List (Option String × Draft)) (s : σ) : BlamesDocument (scan step s fs) := by
  induction fs generalizing s with
  | nil => exact blamesDocument_ok s
  | cons field fs ih =>
    obtain ⟨key, d⟩ := field
    cases key with
    | none => exact blamesDocument_unreadable
    | some key =>
      rw [Wire.scan]
      split
      · rename_i read hread
        exact (h s key read hread d).bind ih
      · split
        · exact ih s
        · exact blamesDocument_unreadable

theorem StepBlames.fields {step : σ → String → Option (Draft → Except Error σ)}
    (h : StepBlames step) (keys : List String) (start : σ) (d : Draft) :
    BlamesDocument (fields keys step start d) := by
  cases d with
  | object fs => exact h.scan fs start
  | array items => exact h.scan (positional keys items) start
  | _ => exact blamesDocument_unreadable

theorem blamesDocument_fill {read : Draft → Except Error α} (h : ∀ d, BlamesDocument (read d))
    (slot : Option α) (d : Draft) : BlamesDocument (fill slot read d) := by
  unfold fill
  split
  · exact blamesDocument_unreadable
  · exact (h d).map some

theorem blamesDocument_pair {first : Draft → Except Error α} {second : Draft → Except Error β}
    (hfirst : ∀ d, BlamesDocument (first d)) (hsecond : ∀ d, BlamesDocument (second d))
    (k l : String) (d : Draft) : BlamesDocument (pair k l first second d) := by
  refine StepBlames.fields (fun s key read hread d => ?_) _ _ d
  unfold pairStep at hread
  split at hread
  · cases hread
    exact (blamesDocument_fill hfirst s.1 d).map _
  · split at hread
    · cases hread
      exact (blamesDocument_fill hsecond s.2 d).map _
    · cases hread

theorem blamesDocument_present (slot : Option α) : BlamesDocument (present slot) := by
  cases slot with
  | none => exact blamesDocument_unreadable
  | some a => exact blamesDocument_ok a

theorem blamesDocument_asKind (kept : Bool) (d : Draft) : BlamesDocument (asKind kept d) := by
  unfold asKind
  split
  · split
    · exact blamesDocument_asWord _ _
    · exact blamesDocument_unreadable
  · exact blamesDocument_asWord _ _

theorem blamesDocument_asListedKind (kept : Bool) (d : Draft) :
    BlamesDocument (asListedKind kept d) := by
  unfold asListedKind
  split
  · exact blamesDocument_asWord _ _
  · split
    · split
      · exact blamesDocument_ok _
      · exact blamesDocument_unreadable
    · exact blamesDocument_unreadable
  · exact blamesDocument_unreadable

section

variable {content : Bool → ValueKind → Draft → Except Error α}
  (h : ∀ kept kind d, BlamesDocument (content kept kind d))

include h

theorem tagStep_blames (kept : Bool) : StepBlames (tagStep kept content) := by
  intro s key read hread d
  unfold tagStep at hread
  split at hread <;> cases hread
  · exact (blamesDocument_asKind kept d).map _
  · dsimp only
    split
    · exact blamesDocument_ok _
    · exact blamesDocument_unreadable
  · exact (h _ _ d).map _
  · exact (blamesDocument_asKind kept d).bind fun _ => (h _ _ _).map _
  all_goals exact blamesDocument_unreadable

theorem blamesDocument_tagged (kept : Bool) (d : Draft) :
    BlamesDocument (tagged kept content d) := by
  unfold tagged
  split
  · refine ((tagStep_blames h kept).scan _ _).bind fun s => ?_
    cases s with
    | done v => exact blamesDocument_ok v
    | _ => exact blamesDocument_unreadable
  · refine (blamesDocument_asListedKind kept _).bind fun k => (h _ _ _).bind fun v => ?_
    split
    · exact blamesDocument_ok v
    · exact blamesDocument_unreadable
  · exact blamesDocument_unreadable

end

theorem blamesDocument_asClass (d : Draft) : BlamesDocument (asClass d) :=
  (blamesDocument_asText d).bind fun text => blamesDocument_checked (blaming_objectClass text)

theorem blamesDocument_asUid (d : Draft) : BlamesDocument (asUid d) :=
  (blamesDocument_asText d).bind fun text => blamesDocument_checked (blaming_uid text)

section

variable {value : Draft → Except Error Value} (h : ∀ d, BlamesDocument (value d))

include h

theorem blamesDocument_asAttribute (d : Draft) : BlamesDocument (asAttribute value d) :=
  (blamesDocument_pair blamesDocument_asText (blamesDocument_asList h) _ _ d).bind fun _ =>
    (blamesDocument_present _).bind fun n => (blamesDocument_present _).bind fun vs =>
      blamesDocument_checked (blaming_attribute n vs)

theorem blamesDocument_asAttributeSet (d : Draft) : BlamesDocument (asAttributeSet value d) :=
  (blamesDocument_asList (blamesDocument_asAttribute h) d).bind fun as =>
    blamesDocument_checked (blaming_attributeSet as)

theorem slotStep_blames (keys : List String) :
    StepBlames (slotStep keys (asAttributeSet value)) := by
  intro s key read hread d
  unfold slotStep at hread
  split at hread
  · split at hread <;> cases hread
    · exact (blamesDocument_fill blamesDocument_asClass _ d).map _
    · exact (blamesDocument_fill blamesDocument_asUid _ d).map _
    · exact (blamesDocument_fill (blamesDocument_asAttributeSet h) _ d).map _
  · cases hread

theorem blamesDocument_asObject (d : Draft) : BlamesDocument (asObject value d) :=
  ((slotStep_blames h objectKeys).fields _ _ d).bind fun _ =>
    (blamesDocument_present _).bind fun _ => (blamesDocument_present _).bind fun _ =>
      blamesDocument_ok _

theorem blamesDocument_contentOf (kind : ValueKind) (d : Draft) :
    BlamesDocument (contentOf value kind d) := by
  cases kind with
  | string => exact (blamesDocument_asText d).map _
  | integer => exact ((blamesDocument_asInteger _ _ d).map _).map _
  | double => exact (blamesDocument_asDouble d).map _
  | boolean => exact (blamesDocument_asBool d).map _
  | embedded => exact (blamesDocument_asObject h d).map _
  | binary | dateTime =>
    refine (blamesDocument_asText d).bind fun text => ?_
    split
    · exact blamesDocument_ok _
    · exact blamesDocument_unreadable

end

theorem blamesDocument_valueWithin (depth : Nat) (kept : Bool) (d : Draft) :
    BlamesDocument (valueWithin depth kept d) := by
  induction depth generalizing kept d with
  | zero => exact blamesDocument_unreadable
  | succ depth ih =>
    rw [valueWithin]
    exact blamesDocument_tagged (fun kept => blamesDocument_contentOf (ih kept)) kept d

end Wire

theorem AttributeSet.blamesDocument_ofJson (j : Json) :
    Wire.BlamesDocument (AttributeSet.ofJson j) :=
  Wire.blamesDocument_asAttributeSet
    (fun d => Wire.blamesDocument_valueWithin d.height false d) (.ofJson j)

end Provisioning
