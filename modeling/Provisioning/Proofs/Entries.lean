import Provisioning.Proofs.Layout

/-!
# A collection keyed by name is an ordered map

What a name finds first is all that it could find, because no key repeats. So every access answers
as an association list from keys to items does: an insertion takes the place of what its key held or
comes at the end, a removal takes away what its key held, a restriction keeps what one of its keys
holds, and a look-up answers what its key holds. Accesses in any order, each on any of the
collections made so far, answer as they do on lists (`AttributeSet.accessed_as_ordered_map`).
-/
namespace Provisioning

variable {α μ ν : Type}

/-- Keys with what they hold, in order. -/
abbrev Entries (α : Type) := List (String × α)

namespace Entries

/-- Gives a key an item: in its place if it holds one, and else at the end. -/
def insert (key : String) (a : α) (m : Entries α) : Entries α :=
  if key ∈ m.map Prod.fst then m.map fun e => if e.1 = key then (key, a) else e
  else m ++ [(key, a)]

/-- Takes away a key with what it holds. -/
def remove (key : String) (m : Entries α) : Entries α := m.filter fun e => e.1 ≠ key

/-- Keeps the given keys with what they hold. -/
def restrict (keys : List String) (m : Entries α) : Entries α := m.filter fun e => e.1 ∈ keys

end Entries

namespace Keyed

/-- An access to a collection, with items and names as they are given. -/
inductive Access (α : Type) where
  | insert (item : α)
  | adding (item : α)
  | remove (name : String)
  | restrict (names : List String)
  | get (name : String)
  | contains (name : String)

/-- What an access answers. -/
inductive Answer (α : Type) where
  | item (found : Option α)
  | found (found : Bool)
  | made (items : List α)

/-- What an access answers and leaves, and the new collection that it makes. -/
structure Response (α μ : Type) where
  answer : Answer α
  left : μ
  made : Option μ

def Response.map (f : μ → ν) (r : Response α μ) : Response α ν :=
  ⟨r.answer, f r.left, r.made.map f⟩

/-- Makes accesses one after the other, each on the collection at a place of a list, at whose end
new ones are put. An access to a place that has none is passed over. -/
def run (perform : Access α → μ → Response α μ) :
    List (Nat × Access α) → List μ → List (Answer α) × List μ
  | [], made => ([], made)
  | (i, access) :: accesses, made =>
    match made[i]? with
    | none => run perform accesses made
    | some s =>
      let r := perform access s
      let (answers, final) := run perform accesses (made.set i r.left ++ r.made.toList)
      (r.answer :: answers, final)

variable [HasName α]

/-- Makes an access to a collection. -/
def perform (access : Access α) (s : Keyed α) : Response α (Keyed α) :=
  match access with
  | .insert a => ⟨.item (s.insert a).1, (s.insert a).2, none⟩
  | .adding a => ⟨.made (s.put a).toList, s, some (s.put a)⟩
  | .remove n => ⟨.item (s.remove n).1, (s.remove n).2, none⟩
  | .restrict ns => ⟨.made (s.restrict ns).toList, s, some (s.restrict ns)⟩
  | .get n => ⟨.item (s.get? n), s, none⟩
  | .contains n => ⟨.found (s.contains n), s, none⟩

end Keyed

open Keyed (Access Response)

/-- What an access answers, leaves and makes of an association list. -/
def Entries.perform [HasName α] (access : Access α) (m : Entries α) : Response α (Entries α) :=
  match access with
  | .insert a => ⟨.item (m.lookup (HasName.key a)), m.insert (HasName.key a) a, none⟩
  | .adding a =>
    let m' := m.insert (HasName.key a) a
    ⟨.made (m'.map Prod.snd), m, some m'⟩
  | .remove n => ⟨.item (m.lookup (Text.fold n)), m.remove (Text.fold n), none⟩
  | .restrict ns =>
    let m' := m.restrict (ns.map Text.fold)
    ⟨.made (m'.map Prod.snd), m, some m'⟩
  | .get n => ⟨.item (m.lookup (Text.fold n)), m, none⟩
  | .contains n => ⟨.found (Text.fold n ∈ m.map Prod.fst), m, none⟩

namespace Keyed

section

variable [HasName α]

/-- The items of a collection, each under its key. -/
def entriesOf (items : List α) : Entries α := items.map fun a => (HasName.key a, a)

def entries (s : Keyed α) : Entries α := entriesOf s.toList

theorem keys_entriesOf (items : List α) :
    (entriesOf items).map Prod.fst = items.map HasName.key := by
  rw [entriesOf, List.map_map]
  rfl

theorem items_entriesOf (items : List α) : (entriesOf items).map Prod.snd = items := by
  rw [entriesOf, List.map_map]
  exact List.map_id items

theorem filter_entriesOf (p : String × α → Bool) (items : List α) :
    (entriesOf items).filter p = entriesOf (items.filter fun a => p (HasName.key a, a)) := by
  rw [entriesOf, List.filter_map]
  rfl

theorem lookup_entriesOf (items : List α) (n : String) :
    (entriesOf items).lookup (Text.fold n) = find? items n := by
  induction items with
  | nil => rfl
  | cons a items ih =>
    rw [find?_cons, ← ih, entriesOf, List.map_cons, List.lookup_cons]
    by_cases h : HasName.key a = Text.fold n
    · rw [if_pos h, h, beq_self_eq_true]
    · rw [if_neg h, beq_eq_false_iff_ne.2 (Ne.symm h)]
      rfl

theorem mem_keys_entries_iff (s : Keyed α) (n : String) :
    Text.fold n ∈ s.entries.map Prod.fst ↔ s.contains n = true := by
  rw [entries, keys_entriesOf, mem_keys_iff]
  rfl

theorem nodup_keys_entries_iff (s : Keyed α) :
    (s.entries.map Prod.fst).Nodup ↔ Distinct s.toList := by
  rw [entries, keys_entriesOf]
  exact List.pairwise_map

theorem entries_put {s : Keyed α} (hs : Distinct s.toList) (a : α) :
    (s.put a).entries = s.entries.insert (HasName.key a) a := by
  have hmem : HasName.key a ∈ s.entries.map Prod.fst ↔ s.contains (HasName.name a).text = true :=
    s.mem_keys_entries_iff _
  rw [Entries.insert]
  cases h : s.contains (HasName.name a).text with
  | true =>
    rw [if_pos (hmem.2 h), entries, toList_put, putList_of_contains hs h, entries, entriesOf,
      entriesOf, List.map_map, List.map_map]
    refine List.map_congr_left fun b _ => ?_
    -- what takes the place of a namesake is under the same key as the namesake
    by_cases hb : HasName.key b = HasName.key a <;> simp [hb]
  | false =>
    have hnot : ¬ HasName.key a ∈ s.entries.map Prod.fst := fun e => by
      rw [hmem.1 e] at h
      cases h
    rw [if_neg hnot, entries, toList_put, putList_of_not_contains h, entriesOf, List.map_append]
    rfl

theorem entries_erase {s : Keyed α} (hs : Distinct s.toList) (n : String) :
    (s.erase n).entries = s.entries.remove (Text.fold n) := by
  rw [entries, toList_erase, eraseP_eq_filter hs, entries, Entries.remove, filter_entriesOf]
  refine congrArg entriesOf (List.filter_congr fun b _ => ?_)
  rw [Bool.eq_iff_iff, Bool.not_eq_true', ← Bool.not_eq_true, HasName.is_iff, decide_eq_true_iff]

theorem entries_restrict (s : Keyed α) (ns : List String) :
    (s.restrict ns).entries = s.entries.restrict (ns.map Text.fold) := by
  rw [entries, toList_restrict, entries, Entries.restrict, filter_entriesOf]
  refine congrArg entriesOf (List.filter_congr fun b _ => ?_)
  rw [Bool.eq_iff_iff, selects_iff, decide_eq_true_iff, List.mem_map]
  exact exists_congr fun n => and_congr_right fun _ => eq_comm

/-- Where no name repeats, a name finds the one item of its key. -/
theorem find?_eq_some_iff {items : List α} (hd : Distinct items) {n : String} {a : α} :
    find? items n = some a ↔ a ∈ items ∧ HasName.key a = Text.fold n := by
  refine ⟨fun h => ⟨mem_of_find? h, key_of_find? h⟩, fun ⟨ha, hkey⟩ => ?_⟩
  rw [← find?_congr hkey]
  exact find?_name hd ha

/-- One access to a collection in which no name repeats answers, leaves and makes what it does of
the entries. -/
theorem perform_entries {s : Keyed α} (hs : Distinct s.toList) (access : Access α) :
    Entries.perform access s.entries = (perform access s).map entries := by
  cases access with
  | insert a =>
    have hfound := lookup_entriesOf s.toList (HasName.name a).text
    rw [perform, insert_eq, Response.map, entries_put hs]
    exact congrArg (Response.mk · _ none) (congrArg Answer.item hfound)
  | adding a =>
    show Response.mk (.made ((s.entries.insert (HasName.key a) a).map Prod.snd)) s.entries
      (some (s.entries.insert (HasName.key a) a)) = _
    rw [← entries_put hs, entries, items_entriesOf]
    rfl
  | remove n =>
    have hfound := lookup_entriesOf s.toList n
    rw [perform, remove_eq, Response.map, entries_erase hs]
    exact congrArg (Response.mk · _ none) (congrArg Answer.item hfound)
  | restrict ns =>
    show Response.mk (.made ((s.entries.restrict (ns.map Text.fold)).map Prod.snd)) s.entries
      (some (s.entries.restrict (ns.map Text.fold))) = _
    rw [← entries_restrict, entries, items_entriesOf]
    rfl
  | get n =>
    exact congrArg (Response.mk · _ none) (congrArg Answer.item (lookup_entriesOf s.toList n))
  | contains n =>
    have hfound : decide (Text.fold n ∈ s.entries.map Prod.fst) = s.contains n := by
      rw [Bool.eq_iff_iff, decide_eq_true_iff, mem_keys_entries_iff]
    exact congrArg (Response.mk · _ none) (congrArg Answer.found hfound)

/-- One access keeps names from repeating, in what it leaves and in what it makes. -/
theorem distinct_perform {s : Keyed α} (hs : Distinct s.toList) (access : Access α) :
    Distinct (perform access s).left.toList ∧
      ∀ t ∈ (perform access s).made, Distinct t.toList := by
  cases access with
  | insert a =>
    rw [perform, insert_eq]
    exact ⟨distinct_putList a hs, nofun⟩
  | adding a => exact ⟨hs, fun t ht => Option.mem_some.1 ht ▸ distinct_putList a hs⟩
  | remove n =>
    rw [perform, remove_eq]
    exact ⟨distinct_erase hs n, nofun⟩
  | restrict ns => exact ⟨hs, fun t ht => Option.mem_some.1 ht ▸ distinct_restrict hs ns⟩
  | get | contains => exact ⟨hs, nofun⟩

end

section

variable {perform : Access α → μ → Response α μ} {perform' : Access α → ν → Response α ν}
  {f : μ → ν} {keep : μ → Prop}

/-- Whether accesses keep a property of collections, in what they leave and in what they make. -/
def Keeps (perform : Access α → μ → Response α μ) (keep : μ → Prop) : Prop :=
  ∀ s, keep s → ∀ access, keep (perform access s).left ∧ ∀ t ∈ (perform access s).made, keep t

theorem Keeps.next (hkeep : Keeps perform keep) {made : List μ} (hmade : ∀ s ∈ made, keep s)
    {i : Nat} {s : μ} (hs : made[i]? = some s) (access : Access α) :
    ∀ t ∈ made.set i (perform access s).left ++ (perform access s).made.toList, keep t := by
  obtain ⟨hleft, hnew⟩ := hkeep s (hmade s (List.mem_of_getElem? hs)) access
  intro t ht
  rcases List.mem_append.1 ht with ht | ht
  · rcases List.mem_or_eq_of_mem_set ht with ht | rfl
    · exact hmade t ht
    · exact hleft
  · exact hnew t (Option.mem_toList.1 ht)

theorem Keeps.run (hkeep : Keeps perform keep) (accesses : List (Nat × Access α)) {made : List μ}
    (hmade : ∀ s ∈ made, keep s) : ∀ s ∈ (run perform accesses made).2, keep s := by
  induction accesses generalizing made with
  | nil => exact hmade
  | cons first accesses ih =>
    obtain ⟨i, access⟩ := first
    unfold Keyed.run
    cases hs : made[i]? with
    | none => exact ih hmade
    | some s => exact ih (hkeep.next hmade hs access)

/-- Where one access answers, leaves and makes alike of a collection and of its image, so does a
run of them. -/
theorem run_map (hkeep : Keeps perform keep)
    (hmap : ∀ s, keep s → ∀ access, perform' access (f s) = (perform access s).map f)
    (accesses : List (Nat × Access α)) {made : List μ} (hmade : ∀ s ∈ made, keep s) :
    run perform' accesses (made.map f) =
      ((run perform accesses made).1, (run perform accesses made).2.map f) := by
  induction accesses generalizing made with
  | nil => rfl
  | cons first accesses ih =>
    obtain ⟨i, access⟩ := first
    unfold run
    rw [List.getElem?_map]
    cases hs : made[i]? with
    | none => exact ih hmade
    | some s =>
      have hnext := ih (hkeep.next hmade hs access)
      simp only [Option.map_some, hmap s (hmade s (List.mem_of_getElem? hs)) access, Response.map]
      rw [← List.map_set, Option.toList_map, ← List.map_append, hnext]

end

end Keyed

/-- Accesses to a set of attributes, and to the sets that they make, answer as they do on
association lists, and leave and make the sets with those entries. No key is ever in a list twice,
so what a name finds is the one attribute of its key. -/
theorem AttributeSet.accessed_as_ordered_map {attributes : List Attribute} {s : AttributeSet}
    (h : AttributeSet.of? attributes = .ok s) (accesses : List (Nat × Access Attribute)) :
    let sets := Keyed.run Keyed.perform accesses [s]
    let maps := Keyed.run Entries.perform accesses [Keyed.entriesOf attributes]
    sets.1 = maps.1 ∧ sets.2.map Keyed.entries = maps.2 ∧
      (∀ m ∈ maps.2, (m.map Prod.fst).Nodup) ∧
      ∀ t ∈ sets.2, ∀ n a, t.get? n = some a ↔ a ∈ t.toList ∧ HasName.key a = Text.fold n := by
  intro sets maps
  obtain ⟨hitems, hdistinct⟩ := Keyed.ofList?_eq_ok_iff.1 (of_mapError_ok h)
  have hstart : ∀ t ∈ [s], Keyed.Distinct t.toList := by
    intro t ht
    rw [List.mem_singleton.1 ht, hitems]
    exact hdistinct
  have hkeep : Keyed.Keeps (α := Attribute) Keyed.perform fun t => Keyed.Distinct t.toList :=
    fun t ht access => Keyed.distinct_perform ht access
  have hfinal : ∀ t ∈ sets.2, Keyed.Distinct t.toList := hkeep.run accesses hstart
  have hmaps : maps = (sets.1, sets.2.map Keyed.entries) := by
    have hentries : [Keyed.entriesOf attributes] = [s].map Keyed.entries := by
      rw [← hitems]
      rfl
    show Keyed.run Entries.perform accesses [Keyed.entriesOf attributes] = _
    rw [hentries]
    exact Keyed.run_map hkeep (fun t ht access => Keyed.perform_entries ht access) accesses hstart
  rw [hmaps]
  refine ⟨rfl, rfl, fun m hm => ?_, fun t ht n a => ?_⟩
  · obtain ⟨t, ht, rfl⟩ := List.mem_map.1 hm
    exact t.nodup_keys_entries_iff.2 (hfinal t ht)
  · exact Keyed.find?_eq_some_iff (hfinal t ht)

namespace AttributeSet

/-- A common name and a surname. -/
def person : List Attribute :=
  [⟨⟨"cn", by decide⟩, [.string "a"]⟩, ⟨⟨"sn", by decide⟩, [.string "b"]⟩]

def otherCommonName : Attribute := ⟨⟨"Cn", by decide⟩, [.string "z"]⟩

/-- A new set with an attribute respelled leaves the old one as it is; the old one is then changed
at its place, restricted, and left without an attribute. -/
theorem person_accessed :
    AttributeSet.of? person = .ok ⟨person⟩ ∧
      (Keyed.run Keyed.perform
        [(0, .adding otherCommonName), (0, .get "CN"), (0, .insert otherCommonName), (0, .get "cn"),
          (0, .restrict ["SN", "cN", "mail", "sn"]), (2, .remove "CN"), (2, .contains "cn"),
          (2, .insert otherCommonName), (2, .restrict ["cn", "sn"])] [⟨person⟩]).1 =
        [.made (otherCommonName :: person.drop 1), .item person.head?, .item person.head?,
          .item otherCommonName, .made (otherCommonName :: person.drop 1), .item otherCommonName,
          .found false, .item none, .made (person.drop 1 ++ [otherCommonName])] := by
  have hof : AttributeSet.of? person = .ok ⟨person⟩ := rfl
  exact ⟨hof, (accessed_as_ordered_map hof _).1.trans rfl⟩

end AttributeSet

end Provisioning
