import Provisioning.Proofs.Writes

/-!
# Restricting before computing

Asking for some attributes of an object returns what asking for all of them does, restricted to
these names. What changes and deltas make of the attributes that they name is the same before and
after a restriction to these names, in any spelling (`restriction_changes_nothing`). All of a
document is read before anything is left out, so a double that JSON has no word for also hides the
attributes beside it (`weight_hides_telephone`).
-/
namespace Provisioning

/-- An object with some of its attributes. -/
def Record.restrict (r : Record) (names : List String) : Record :=
  { r with attributes := r.attributes.restrict names }

/-- The options without a list of attributes to return. -/
def Options.askingAll (o : Options) : Options := { o with attributesToGet := none }

theorem AttributeSet.recast_restrict (time : Instant → Instant) (s : AttributeSet)
    (names : List String) :
    AttributeSet.recast time (s.restrict names) = (s.recast time).restrict names :=
  congrArg Keyed.mk (filter_recastAttributes time
    (fun a b hab => Keyed.selects_congr names a b (HasName.key_congr hab)) s.toList).symm

namespace Memory

variable (capabilities : Capabilities) (fresh : Nat → Uid) (m : Memory) (cls : ObjectClass)
  (uid : Uid) (options : Options)

/-- The object of attributes that are found, with those that the options want. -/
def wanted (s : AttributeSet) : Record :=
  ⟨cls, uid, ⟨s.toList.filter fun a => options.wants a.name.text⟩⟩

/-- What is wanted is chosen when all has been read. -/
theorem getObject_eq_map :
    (connector capabilities fresh).getObject cls uid options =
      Option.map (wanted cls uid options) <$>
        (enter capabilities .search >>= fun _ => load cls uid) := by
  rw [map_eq_pure_bind, bind_assoc]
  refine congrArg (enter capabilities .search >>= ·) (funext fun _ => ?_)
  refine congrArg (load cls uid >>= ·) (funext fun found => ?_)
  cases found <;> rfl

theorem wanted_asking (names : List String) (s : AttributeSet) :
    wanted cls uid (options.asking names) s =
      (wanted cls uid options.askingAll s).restrict names := by
  have hall : (⟨s.toList.filter fun a => options.askingAll.wants a.name.text⟩ : AttributeSet) = s :=
    congrArg Keyed.mk (List.filter_eq_self.2 fun _ _ => rfl)
  rw [wanted, wanted, wanted_eq_restrict, Record.restrict, hall]

/-- What is asked for is what there is, restricted, whatever state the resource is in. -/
theorem result_getObject_asking (names : List String) :
    ((connector capabilities fresh).getObject cls uid (options.asking names) m).result =
      ((connector capabilities fresh).getObject cls uid options.askingAll m).result.map
        (Option.map (·.restrict names)) := by
  rw [getObject_eq_map, getObject_eq_map, Action.result_map, Action.result_map, except_map_map]
  simp only [Option.map_map]
  exact congrArg (fun f => Except.map (Option.map f) _)
    (funext (wanted_asking cls uid options names))

variable {m}

/-- Of a stored object the attributes asked for are returned, if every double in it is finite. -/
theorem result_getObject_stored {s : AttributeSet} (hs : s.meets .wellFormed = true)
    (hstored : m.documents (key cls uid) = some s.toJson) (hadmits : Admits capabilities m .search)
    (names : List String) :
    ((connector capabilities fresh).getObject cls uid (options.asking names) m).result =
      if s.meets .finite then
        .ok (some ⟨cls, uid, AttributeSet.recast .denoted (s.restrict names)⟩)
      else .error (.document .nullNumber) := by
  have hserves := getObject_serves capabilities fresh m cls uid (options.asking names)
  rw [(hserves.answers hadmits).result, Documents.lookUp, hstored]
  dsimp only
  rw [AttributeSet.ofJson_toJson hs, Wire.reread]
  cases s.meets .finite with
  | false => rfl
  | true =>
    show Except.ok (some (Record.mk cls uid ⟨(s.recast .denoted).toList.filter _⟩)) = _
    rw [wanted_eq_restrict, AttributeSet.recast_restrict]
    rfl

end Memory

/-- Attributes can be left out before as well as after. What is asked for of an object is what it
has, restricted; of a stored set it is the restriction of the set, unless a double anywhere in the
set is a NaN or an infinity. Marks are gone then, and points in time are as their texts denote them,
which is as they were if these are read as such. Changes and deltas give the same replacements, in
the same order and spelling, from the attributes that they name. -/
theorem restriction_changes_nothing {s : AttributeSet} (hs : s.meets .wellFormed = true) :
    (∀ (capabilities : Capabilities) (fresh : Nat → Uid) (m : Memory) (cls : ObjectClass)
      (uid : Uid) (options : Options) (names : List String),
      let asked :=
        ((Memory.connector capabilities fresh).getObject cls uid (options.asking names) m).result
      asked =
        ((Memory.connector capabilities fresh).getObject cls uid options.askingAll m).result.map
          (Option.map (·.restrict names)) ∧
      (m.documents (Memory.key cls uid) = some s.toJson → Memory.Admits capabilities m .search →
        asked =
          if s.meets .finite then
            .ok (some ⟨cls, uid, AttributeSet.recast .denoted (s.restrict names)⟩)
          else .error (.document .nullNumber)) ∧
      (s.meets .denotable = true → AttributeSet.recast .denoted (s.restrict names) =
        AttributeSet.recast id (s.restrict names))) ∧
    (∀ (mode : UpdateMode) (changes : AttributeSet) (ns : List String),
      Keyed.Covers ns changes.names →
        mergeChanges mode changes (s.restrict ns) = mergeChanges mode changes s) ∧
    ∀ (ds : DeltaSet) (ns names : List String),
      Keyed.Covers ns ds.names → Keyed.Covers ns names →
        (ds.applyTo (s.restrict ns)).restrict names = (ds.applyTo s).restrict names := by
  refine ⟨fun capabilities fresh m cls uid options names =>
      ⟨?_, fun hstored hadmits => ?_, fun hdenotable => ?_⟩,
    fun mode changes ns h => mergeChanges_restrict mode h s,
    fun ds ns names h hnames => restrict_applyTo_restrict h hnames s⟩
  · exact Memory.result_getObject_asking capabilities fresh m cls uid options names
  · exact Memory.result_getObject_stored capabilities fresh cls uid options hs hstored hadmits names
  · rw [AttributeSet.recast_restrict, AttributeSet.recast_restrict,
      AttributeSet.recast_denoted hdenotable]

namespace Memory

/-- An account with a weight and a telephone number. -/
def measured (weight : Binary64) : AttributeSet :=
  ⟨[⟨⟨"weight", by decide⟩, [.double weight]⟩, ⟨⟨"Tel", by decide⟩, [.integer 555]⟩]⟩

def withMeasured (weight : Binary64) : Memory :=
  { empty with store := Store.empty.put (key .account bob) (measured weight).toJson }

def secondTelephone : AttributeSet := ⟨[⟨⟨"tel", by decide⟩, [.integer 777]⟩]⟩

/-- A desk is given, and the weight is taken back. -/
def discharge : DeltaSet :=
  ⟨[.complex ⟨"desk", by decide⟩ [.add [.integer 7]],
    .complex ⟨"WEIGHT", by decide⟩ [.delete none]]⟩

theorem measured_restricted :
    ((connector .replaceOnly fun _ => bob).getObject .account bob
        (Options.default.asking ["TEL", "desk", "tel"]) (withMeasured (.ofInt 2))).result =
      .ok (some ⟨.account, bob, ⟨(measured (.ofInt 2)).toList.drop 1⟩⟩) ∧
    mergeChanges .add secondTelephone ((measured (.ofInt 2)).restrict ["Fax", "tEL"]) =
      mergeChanges .add secondTelephone (measured (.ofInt 2)) ∧
    (discharge.applyTo ((measured (.ofInt 2)).restrict ["Desk", "weight"])).restrict ["weighT"] =
      (discharge.applyTo (measured (.ofInt 2))).restrict ["weighT"] := by
  obtain ⟨hfound, hmerged, happlied⟩ :=
    restriction_changes_nothing (s := measured (.ofInt 2)) (by decide)
  refine ⟨?_, hmerged .add secondTelephone ["Fax", "tEL"] (by decide),
    happlied discharge ["Desk", "weight"] ["weighT"] (by decide) (by decide)⟩
  exact ((hfound .replaceOnly (fun _ => bob) (withMeasured (.ofInt 2)) .account bob .default
    ["TEL", "desk", "tel"]).2.1 rfl ⟨rfl, rfl⟩).trans rfl

/-- The telephone number is not returned where the weight is not a number. -/
theorem weight_hides_telephone :
    (measured .nan).meets .wellFormed = true ∧
      ((connector .full fun _ => bob).getObject .account bob (Options.default.asking ["tel"])
        (withMeasured .nan)).result = .error (.document .nullNumber) ∧
      ¬ ∀ s : AttributeSet, s.meets .wellFormed = true → ∀ (m : Memory) (names : List String),
        m.documents (key .account bob) = some s.toJson → Admits .full m .search →
          ((connector .full fun _ => bob).getObject .account bob (Options.default.asking names)
            m).result = .ok (some ⟨.account, bob, AttributeSet.recast id (s.restrict names)⟩) := by
  refine ⟨by decide, rfl, fun h => ?_⟩
  have hfound := h (measured .nan) (by decide) (withMeasured .nan) ["tel"] rfl ⟨rfl, rfl⟩
  cases hfound

end Memory

end Provisioning
