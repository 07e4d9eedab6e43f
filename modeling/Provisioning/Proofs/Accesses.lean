import Mathlib.Data.Set.Card
import Provisioning.Proofs.Service

/-!
# A document store is one map

The two levels of a store do not show. Its documents are one map over keys, and each access answers
and changes that map as `Documents.access` says, so a run of accesses does too
(`accesses_answer_as_map`). What a run leaves under a key is what was last written there.
-/
namespace Provisioning

theorem isSome_lookup_iff {ν : Type} {entries : List (String × ν)} {k : String} :
    (entries.lookup k).isSome = true ↔ k ∈ entries.map Prod.fst := by
  induction entries with
  | nil => simp
  | cons e rest ih =>
    rw [lookup_entry, List.map_cons, List.mem_cons, ← ih]
    by_cases h : k = e.1 <;> simp [h]

/-- A table has as many entries as keys that find something. -/
theorem Table.size_eq_ncard {ν : Type} (t : Table ν) :
    t.size = {k | (t.find? k).isSome = true}.ncard := by
  have hnodup : (t.entries.map Prod.fst).Nodup := by
    refine List.pairwise_map.2 (t.sorted.imp fun {d e} hlt heq => ?_)
    exact String.lt_irrefl e.1 (heq ▸ hlt)
  have hkeys : {k | (t.find? k).isSome = true} = ↑(t.entries.map Prod.fst).toFinset := by
    ext k
    simp only [Set.mem_ofPred_eq, Table.find?, isSome_lookup_iff, List.coe_toFinset]
  rw [hkeys, Set.ncard_coe_finset, List.toFinset_card_of_nodup hnodup, List.length_map, Table.size]

theorem Uid.text_inj {u v : Uid} : u.text = v.text ↔ u = v := by
  refine ⟨fun h => ?_, fun h => h ▸ rfl⟩
  have hof : Uid.of? u.text = Uid.of? v.text := congrArg Uid.of? h
  rw [Uid.of?_text, Uid.of?_text] at hof
  exact Except.ok.inj hof

/-- Objects share a key exactly if their classes are equal and their uids the same. -/
theorem Memory.key_eq_key_iff (cls cls' : ObjectClass) (uid uid' : Uid) :
    Memory.key cls uid = Memory.key cls' uid' ↔ (cls == cls') = true ∧ uid = uid' := by
  rw [Memory.key, Memory.key, Store.Key.of_eq_of_iff, Uid.text_inj]
  rfl

namespace Store

/-- An access to a store, with class and identifier as they are given. -/
inductive Access where
  | put (objectClass id : String) (document : Json)
  | insert (objectClass id : String) (document : Json)
  | get (objectClass id : String)
  | delete (objectClass id : String)
  | count (objectClass : String)

/-- What an access answers if it does not fail. -/
inductive Answer where
  | done
  | found (document : Option Json)
  | deleted (found : Bool)
  | counted (n : Nat)

/-- Makes an access. -/
def perform : Access → Action Store Answer
  | .put c i document => (fun _ => .done) <$> putting (.of c i) document
  | .insert c i document => (fun _ => .done) <$> inserting (.of c i) document
  | .get c i => .found <$> getting (.of c i)
  | .delete c i => .deleted <$> deleting (.of c i)
  | .count c => .counted <$> counting c

/-- The answers to accesses that are made one after the other. -/
def answers : List Access → Store → List (Except Error Answer)
  | [], _ => []
  | a :: as, s => (perform a s).result :: answers as (perform a s).state

/-- The store after accesses. -/
def after (as : List Access) (s : Store) : Store := as.foldl (fun s a => (perform a s).state) s

/-- The document that was last put or newly inserted under a key and not deleted since, in a list
of accesses with the latest first. -/
def lastWritten (key : Key) : List Access → Option Json
  | [] => none
  | .put c i document :: earlier =>
    if Key.of c i = key then some document else lastWritten key earlier
  | .insert c i document :: earlier =>
    if Key.of c i = key then (lastWritten key earlier).or (some document)
    else lastWritten key earlier
  | .delete c i :: earlier => if Key.of c i = key then none else lastWritten key earlier
  | .get .. :: earlier | .count _ :: earlier => lastWritten key earlier

end Store

open Store (Access Answer)

/-- How many identifiers have a document under a class in any spelling. -/
noncomputable def Documents.count (docs : Documents) (objectClass : String) : Nat :=
  {id | (docs (.of objectClass id)).isSome = true}.ncard

/-- What an access answers of a map, and the map afterwards. -/
noncomputable def Documents.access (docs : Documents) :
    Access → Except Error Answer × Documents
  | .put c i document => (.ok .done, docs.set (.of c i) (some document))
  | .insert c i document =>
    if (docs (.of c i)).isSome then (.error (.storage (.alreadyExists (.of c i))), docs)
    else (.ok .done, docs.set (.of c i) (some document))
  | .get c i => (.ok (.found (docs (.of c i))), docs)
  | .delete c i => (.ok (.deleted (docs (.of c i)).isSome), docs.set (.of c i) none)
  | .count c => (.ok (.counted (docs.count c)), docs)

/-- The answers of a map to accesses that are made one after the other. -/
noncomputable def Documents.answers : List Access → Documents → List (Except Error Answer)
  | [], _ => []
  | a :: as, docs => (docs.access a).1 :: Documents.answers as (docs.access a).2

namespace Store

theorem get?_put_eq_set (s : Store) (key : Key) (document : Json) :
    (s.put key document).get? = Documents.set s.get? key (some document) :=
  funext fun k => get?_put s key k document

theorem get?_delete_eq_set (s : Store) (key : Key) :
    (s.delete key).2.get? = Documents.set s.get? key none :=
  funext fun k => get?_delete s key k

theorem count_eq (s : Store) (objectClass : String) :
    s.count objectClass = Documents.count s.get? objectClass :=
  (s.documents (Text.fold objectClass)).size_eq_ncard

/-- An insertion under a taken key fails and leaves the store, both its levels, as it is. -/
theorem inserting_eq (s : Store) (key : Key) (document : Json) :
    (inserting key document s).result =
        (if (s.get? key).isSome then .error (.storage (.alreadyExists key)) else .ok ()) ∧
      (inserting key document s).state =
        if (s.get? key).isSome then s else s.put key document := by
  obtain ⟨hresult, hstate⟩ := Memory.inserting_eq { Memory.empty with store := s } key document
  refine ⟨hresult, ?_⟩
  have hstore := congrArg Memory.store hstate
  rw [apply_ite Memory.store] at hstore
  exact hstore

/-- One access of the store is that access of the map of its documents. -/
theorem perform_eq (a : Access) (s : Store) :
    (perform a s).result = (Documents.access s.get? a).1 ∧
      (perform a s).state.get? = (Documents.access s.get? a).2 := by
  cases a with
  | put c i document => exact ⟨rfl, get?_put_eq_set s (.of c i) document⟩
  | insert c i document =>
    obtain ⟨hresult, hstate⟩ := inserting_eq s (.of c i) document
    rw [perform, Action.result_map, Action.state_map, hresult, hstate, Documents.access]
    by_cases htaken : (s.get? (.of c i)).isSome = true
    · rw [if_pos htaken, if_pos htaken, if_pos htaken]
      exact ⟨rfl, rfl⟩
    · rw [if_neg htaken, if_neg htaken, if_neg htaken]
      exact ⟨rfl, get?_put_eq_set s (.of c i) document⟩
  | get c i => exact ⟨rfl, rfl⟩
  | delete c i => exact ⟨rfl, get?_delete_eq_set s (.of c i)⟩
  | count c =>
    refine ⟨?_, rfl⟩
    exact congrArg (fun n => Except.ok (Answer.counted n)) (count_eq s c)

theorem answers_eq (as : List Access) (s : Store) :
    answers as s = Documents.answers as s.get? := by
  induction as generalizing s with
  | nil => rfl
  | cons a as ih =>
    obtain ⟨hresult, hstate⟩ := perform_eq a s
    rw [answers, Documents.answers, hresult, ih, hstate]

/-- An access keeps the map under a key at what was last written there. -/
theorem access_eq_lastWritten {docs : Documents} {key : Key} {earlier : List Access}
    (h : docs key = lastWritten key earlier) (a : Access) :
    (docs.access a).2 key = lastWritten key (a :: earlier) := by
  cases a with
  | put c i document =>
    simp only [Documents.access, Documents.set, lastWritten, h, eq_comm]
  | insert c i document =>
    simp only [Documents.access, lastWritten, ← h]
    by_cases hkey : Key.of c i = key
    · subst hkey
      rw [if_pos rfl]
      cases hdoc : docs (Key.of c i) with
      | none => simp
      | some taken => simp [hdoc]
    · rw [if_neg hkey]
      split
      · rfl
      · exact Documents.set_of_ne docs _ (Ne.symm hkey)
  | delete c i =>
    simp only [Documents.access, Documents.set, lastWritten, h, eq_comm]
  | get c i => exact h
  | count c => exact h

/-- After any accesses, what is found under a key is what was last written there. -/
theorem get?_after (as : List Access) (key : Key) :
    (after as empty).get? key = lastWritten key as.reverse := by
  induction as using List.reverseRecOn with
  | nil => rfl
  | append_singleton as a ih =>
    have hlast : after (as ++ [a]) empty = (perform a (after as empty)).state :=
      List.foldl_concat ..
    rw [hlast, (perform_eq a _).2, access_eq_lastWritten ih, List.reverse_concat]

/-- Accesses are answered as by one map over keys, and leave under each key what was last written
there. Objects share a key exactly if their classes are equal and their uids the same. -/
theorem accesses_answer_as_map (as : List Access) :
    (∀ s : Store, answers as s = Documents.answers as s.get?) ∧
    (∀ key, (after as empty).get? key = lastWritten key as.reverse) ∧
    ∀ (cls cls' : ObjectClass) (uid uid' : Uid),
      Memory.key cls uid = Memory.key cls' uid' ↔ (cls == cls') = true ∧ uid = uid' := by
  exact ⟨answers_eq as, get?_after as, Memory.key_eq_key_iff⟩

/-- A document is found, counted and taken away under any spelling of its class, and only once. -/
example :
    answers [.put "Account" "bob" .null, .insert "ACCOUNT" "bob" (.bool true), .get "account" "bob",
      .count "accOunt", .delete "ACCOUNT" "bob", .delete "Account" "bob", .count "account"] empty =
    [.ok .done, .error (.storage (.alreadyExists ⟨"account", "bob"⟩)), .ok (.found (some .null)),
      .ok (.counted 1), .ok (.deleted true), .ok (.deleted false), .ok (.counted 0)] := rfl

end Store

end Provisioning
