import Provisioning.Proofs.Readable
import Provisioning.Proofs.Rejection

/-!
# What no run can change

A request that a connector gets at all is not for the class that stands for every class, and does
not name the identifier; one that adds or removes values names no operational attribute. What a
request does not name it leaves alone, so no run from an empty resource gets there in any other way
(`protected_in_run`).
-/
namespace Provisioning

open Memory

/-- The items of an array whose name passes a test. -/
def Json.itemsNamed (p : String → Bool) : Json → List Json
  | .array items => items.filter fun item =>
    match item.field? "name" with
    | some (.string n) => p n
    | _ => false
  | _ => []

theorem Attribute.field?_name (a : Attribute) :
    a.toJson.field? "name" = some (.string a.name.text) := by
  obtain ⟨n, vs⟩ := a
  rfl

/-- The items of a written set that have such a name are its attributes that do. -/
theorem AttributeSet.itemsNamed_toJson (p : String → Bool) (s : AttributeSet) :
    s.toJson.itemsNamed p = (s.toList.filter fun a => p a.name.text).map Attribute.toJson := by
  rw [toJson, encode, Wire.encodeAttributes_eq_map, Json.itemsNamed, List.filter_map]
  refine congrArg (List.map Attribute.toJson) (List.filter_congr fun a _ => ?_)
  rw [Function.comp_apply, a.field?_name]

mutual

/-- Marks are not written, and neither is which of two points in time with the same text it is. -/
theorem Value.toJson_recast {time : Instant → Instant}
    (htime : ∀ t : Instant, (time t).text "Z" = t.text "Z") (v : Value) :
    (v.recast time).toJson = v.toJson := by
  match v with
  | .embedded mark ⟨c, ⟨as⟩⟩ =>
    rw [Value.recast, EmbeddedObject.recast, Value.toJson, Value.toJson, Value.encode,
      Value.encode, EmbeddedObject.encode, EmbeddedObject.encode,
      encode_recastAttributes htime as]
  | .dateTime t =>
    rw [Value.recast, Value.toJson, Value.toJson, Value.encode, Value.encode, htime t]
  | .string _ | .integer _ | .double _ | .boolean _ | .binary _ => rfl

theorem encode_recastValues {time : Instant → Instant}
    (htime : ∀ t : Instant, (time t).text "Z" = t.text "Z") (vs : List Value) :
    encodeValues Json.double (recastValues time vs) = encodeValues Json.double vs := by
  match vs with
  | [] => rfl
  | v :: vs =>
    have hv : Value.encode Json.double (v.recast time) = Value.encode Json.double v :=
      v.toJson_recast htime
    rw [recastValues, encodeValues, encodeValues, hv, encode_recastValues htime vs]

theorem encode_recastAttributes {time : Instant → Instant}
    (htime : ∀ t : Instant, (time t).text "Z" = t.text "Z") (as : List Attribute) :
    encodeAttributes Json.double (recastAttributes time as) =
      encodeAttributes Json.double as := by
  match as with
  | [] => rfl
  | ⟨n, vs⟩ :: as =>
    rw [recastAttributes, Attribute.recast, encodeAttributes, encodeAttributes, Attribute.encode,
      Attribute.encode, encode_recastValues htime vs, encode_recastAttributes htime as]

end

theorem AttributeSet.toJson_recast (s : AttributeSet) : (s.recast .denoted).toJson = s.toJson :=
  congrArg Json.array (encode_recastAttributes (Instant.text_denoted "Z") s.toList)

theorem Wire.of_reread {α : Type} {finite : Bool} {a b : α} (h : reread finite a = .ok b) :
    b = a := by
  cases finite with
  | true =>
    cases h
    rfl
  | false => cases h

namespace Edit

/-- The attributes whose names pass a test stay as they are if an edit names none of them. -/
theorem filter_run_of_avoids {p : String → Bool} {e : Edit}
    (havoids : ∀ n, p n = true → e.mentions n = false) (current : AttributeSet) :
    (e.run current).toList.filter (fun a => p a.name.text) =
      current.toList.filter fun a => p a.name.text := by
  have hand (as : List Attribute) : as.filter (fun a => p a.name.text) =
      (as.filter fun a => !e.mentions a.name.text).filter fun a => p a.name.text := by
    rw [List.filter_filter]
    refine List.filter_congr fun a _ => ?_
    cases hp : p a.name.text with
    | false => rfl
    | true => rw [havoids _ hp, Bool.true_and, Bool.not_false]
  rw [hand, filter_run, ← hand]

/-- An edit that does not name an attribute does not bring it in. -/
theorem contains_run_of_not_mentions {e : Edit} {n : String} (h : e.mentions n = false)
    {current : AttributeSet} (hcurrent : current.contains n = false) :
    (e.run current).contains n = false := by
  rw [Keyed.contains, Option.isSome_eq_false_iff, Option.isNone_iff_eq_none] at *
  rw [Keyed.get?_eq_find?, Keyed.find?_eq_none_iff] at *
  intro a ha hkey
  have hmentions : (!e.mentions a.name.text) = true := by
    rw [Bool.not_eq_true', Bool.eq_false_iff, ne_eq, mentions_iff]
    rintro ⟨m, hm, hma⟩
    have hn : e.mentions n = true := (mentions_iff e n).2 ⟨m, hm, hma.trans hkey⟩
    rw [h] at hn
    cases hn
  have hmem : a ∈ (e.run current).toList.filter fun a => !e.mentions a.name.text :=
    List.mem_filter.2 ⟨ha, hmentions⟩
  rw [filter_run] at hmem
  exact hcurrent a (List.mem_filter.1 hmem).1 hkey

end Edit

/-- The class under which a request may change a document. -/
def Invocation.target? : Invocation → Option ObjectClass
  | .create cls _ _ | .update cls _ _ _ | .changeValues _ cls _ _ _ | .updateDelta cls _ _ _
  | .delete cls _ _ => some cls
  | .getObject .. => none

theorem Invocation.barred_of_target {config : Config} {r : Invocation} {cls : ObjectClass}
    (h : r.target? = some cls) (hcls : Text.fold cls.text = Text.fold "__ALL__") :
    r.Barred config := by
  cases r with
  | getObject => cases h
  | delete =>
    cases h
    exact hcls
  | _ =>
    cases h
    exact .inl hcls

/-- A written set of attributes without an identifier among them. -/
def Guarded (document : Json) : Prop :=
  ∃ s : AttributeSet, document = s.toJson ∧ s.meets .wellFormed = true ∧
    s.contains uidName = false

namespace Documents

variable {docs after : Documents}

/-- Documents that are guarded, and of which none is under the class that stands for every class. -/
def AllGuarded (docs : Documents) : Prop :=
  ∀ key document, docs key = some document →
    key.objectClass ≠ Text.fold "__ALL__" ∧ Guarded document

/-- What is read of a guarded document are the attributes that were written, without marks and with
the points in time that their texts denote. -/
theorem AllGuarded.of_read (hdocs : docs.AllGuarded) {cls : ObjectClass} {uid : Uid}
    {current : AttributeSet} (h : docs.read cls uid = .ok current) :
    ∃ s : AttributeSet, docs (Memory.key cls uid) = some s.toJson ∧
      current = s.recast .denoted ∧ s.contains uidName = false := by
  obtain ⟨document, hdocument, hread⟩ := read_eq_ok_iff.1 h
  obtain ⟨s, rfl, hwell, huid⟩ := (hdocs _ document hdocument).2
  rw [AttributeSet.ofJson_toJson hwell] at hread
  exact ⟨s, hdocument, Wire.of_reread hread, huid⟩

theorem set_of_class_ne (docs : Documents) {cls : ObjectClass} {uid : Uid} {key : Store.Key}
    (document : Option Json) (h : docs.set (Memory.key cls uid) document key ≠ docs key) :
    key.objectClass = Text.fold cls.text := by
  by_cases hkey : key = Memory.key cls uid
  · rw [hkey]
    rfl
  · exact absurd (set_of_ne docs document hkey) h

theorem class_of_serveEdit_ok {cls : ObjectClass} {uid : Uid} {e : Edit} {reply : Reply}
    (h : docs.serveEdit cls uid e = .ok (reply, after)) {key : Store.Key}
    (hkey : after key ≠ docs key) : key.objectClass = Text.fold cls.text := by
  cases hread : docs.read cls uid with
  | error err =>
    rw [serveEdit_of_error hread] at h
    cases h
  | ok current =>
    rw [serveEdit_of_ok hread] at h
    cases h
    exact set_of_class_ne docs _ hkey

/-- A request that succeeds changes documents only under its class. -/
theorem class_of_serve_ok {fresh : Uid} {r : Invocation} {reply : Reply}
    (h : docs.serve fresh r = .ok (reply, after)) {key : Store.Key}
    (hkey : after key ≠ docs key) :
    ∃ cls, r.target? = some cls ∧ key.objectClass = Text.fold cls.text := by
  cases r with
  | create cls as o =>
    obtain ⟨p, hp, heq⟩ := of_map_ok h
    cases heq
    obtain ⟨uid, -, hp⟩ := of_bind_ok hp
    dsimp only at hp
    split at hp
    · cases hp
    · cases hp
      exact ⟨cls, rfl, set_of_class_ne docs _ hkey⟩
  | getObject cls uid o =>
    obtain ⟨found, -, heq⟩ := of_map_ok h
    cases heq
    exact absurd rfl hkey
  | update cls uid as o => exact ⟨cls, rfl, class_of_serveEdit_ok h hkey⟩
  | changeValues mode cls uid vs o => exact ⟨cls, rfl, class_of_serveEdit_ok h hkey⟩
  | updateDelta cls uid ds o => exact ⟨cls, rfl, class_of_serveEdit_ok h hkey⟩
  | delete cls uid o =>
    obtain ⟨left, hleft, heq⟩ := of_map_ok h
    cases heq
    unfold delete at hleft
    split at hleft
    · cases hleft
      exact ⟨cls, rfl, set_of_class_ne docs _ hkey⟩
    · cases hleft

theorem contains_of_edited {cls : ObjectClass} {uid : Uid} {e : Edit} {s : AttributeSet}
    (hdocs : docs.AllGuarded)
    (he : ¬ ∃ n ∈ e.names, Text.fold n = Text.fold uidName)
    (h : docs.edited cls uid e = some s) : s.contains uidName = false := by
  unfold edited at h
  cases hread : docs.read cls uid with
  | error err =>
    rw [hread] at h
    cases h
  | ok current =>
    rw [hread] at h
    cases h
    obtain ⟨s, -, rfl, huid⟩ := hdocs.of_read hread
    have hmentions : e.mentions uidName = false := by
      rw [Bool.eq_false_iff, ne_eq, Edit.mentions_iff]
      exact he
    refine Edit.contains_run_of_not_mentions hmentions ?_
    rw [AttributeSet.contains_recast, huid]

/-- A request that is not barred writes no identifier. -/
theorem contains_of_written {config : Config} {r : Invocation} {s : AttributeSet}
    (hdocs : docs.AllGuarded) (hr : ¬ r.Barred config) (h : docs.written r = some s) :
    s.contains uidName = false := by
  cases r with
  | create cls as o =>
    cases h
    rw [Bool.eq_false_iff, ne_eq, Blames.contains_iff]
    exact fun huid => hr (.inr huid)
  | update cls uid as o =>
    exact contains_of_edited (e := .replace as) hdocs (fun huid => hr (.inr huid)) h
  | changeValues mode cls uid vs o =>
    exact contains_of_edited (e := .change mode vs) hdocs (fun huid => hr (.inr (.inl huid))) h
  | updateDelta cls uid ds o =>
    exact contains_of_edited (e := .apply ds) hdocs (fun huid => hr (.inr huid)) h
  | getObject cls uid o => cases h
  | delete cls uid o => cases h

/-- What an edit leaves of the attributes whose names pass a test, if it names none of them. -/
theorem itemsNamed_of_serveEdit_ok {cls : ObjectClass} {uid : Uid} {e : Edit} {reply : Reply}
    {p : String → Bool} (hdocs : docs.AllGuarded)
    (havoids : ∀ n, p n = true → e.mentions n = false)
    (h : docs.serveEdit cls uid e = .ok (reply, after)) (key : Store.Key) :
    (after key).map (Json.itemsNamed p) = (docs key).map (Json.itemsNamed p) := by
  cases hread : docs.read cls uid with
  | error err =>
    rw [serveEdit_of_error hread] at h
    cases h
  | ok current =>
    rw [serveEdit_of_ok hread] at h
    cases h
    by_cases hkey : key = Memory.key cls uid
    · obtain ⟨s, hs, rfl, -⟩ := hdocs.of_read hread
      have hitems : (e.run (s.recast .denoted)).toJson.itemsNamed p = s.toJson.itemsNamed p := by
        rw [AttributeSet.itemsNamed_toJson, Edit.filter_run_of_avoids havoids,
          ← AttributeSet.itemsNamed_toJson, AttributeSet.toJson_recast]
      rw [hkey, set_self, hs, Option.map_some, Option.map_some, hitems]
    · rw [set_of_ne docs _ hkey]

end Documents

namespace Memory

section

variable {capabilities : Capabilities} {fresh : Nat → Uid} {config : Config} {m : Memory}
  {r : Invocation}

theorem not_barred_of_ok {reply : Reply}
    (h : ((facade capabilities fresh config).perform r m).result = .ok reply) :
    ¬ r.Barred config := by
  intro hbarred
  obtain ⟨⟨fault, hfault⟩, -⟩ :=
    Facade.perform_of_barred (f := facade capabilities fresh config) hbarred m
  rw [h] at hfault
  cases hfault

/-- Every request keeps all documents guarded. -/
theorem allGuarded_of_perform (hr : r.meets .wellFormed = true) (hm : m.documents.AllGuarded) :
    ((facade capabilities fresh config).perform r m).state.documents.AllGuarded := by
  cases hresult : ((facade capabilities fresh config).perform r m).result with
  | error e =>
    rw [(facade_serves capabilities fresh config m r).documents_of_error hresult]
    exact hm
  | ok reply =>
    have hbarred := not_barred_of_ok hresult
    obtain ⟨after, hserve, hdocuments⟩ := serve_of_ok hresult
    have hguarded := Documents.forall_of_serve_ok (fun key document h => (hm key document h).2)
      hserve fun s hs => ⟨s, rfl, wellFormed_of_written hr hs,
        Documents.contains_of_written hm hbarred hs⟩
    rw [hdocuments]
    intro key document hkey
    refine ⟨fun hevery => ?_, hguarded key document hkey⟩
    by_cases hsame : after key = m.documents key
    · exact (hm key document (hsame ▸ hkey)).1 hevery
    · obtain ⟨cls, htarget, hclass⟩ := Documents.class_of_serve_ok hserve hsame
      exact hbarred (Invocation.barred_of_target htarget (hclass.symm.trans hevery))

/-- Values that are added or removed leave operational attributes as they are. -/
theorem itemsNamed_of_changeValues {mode : UpdateMode} {cls : ObjectClass} {uid : Uid}
    {vs : AttributeSet} {o : Options} (hm : m.documents.AllGuarded) (key : Store.Key) :
    (((facade capabilities fresh config).perform (.changeValues mode cls uid vs o)
        m).state.documents key).map (Json.itemsNamed config.isOperational) =
      (m.documents key).map (Json.itemsNamed config.isOperational) := by
  cases hresult : ((facade capabilities fresh config).perform (.changeValues mode cls uid vs o)
      m).result with
  | error e => rw [(facade_serves capabilities fresh config m _).documents_of_error hresult]
  | ok reply =>
    have hbarred := not_barred_of_ok hresult
    obtain ⟨after, hserve, hdocuments⟩ := serve_of_ok hresult
    rw [hdocuments]
    refine Documents.itemsNamed_of_serveEdit_ok hm (fun n hn => ?_) hserve key
    rw [Bool.eq_false_iff, ne_eq, Edit.mentions_iff]
    rintro ⟨k, hk, hkn⟩
    refine hbarred (.inr (.inr ⟨k, hk, ?_⟩))
    unfold Config.isOperational at *
    rw [List.any_eq_true] at *
    obtain ⟨op, hop, hsame⟩ := hn
    rw [Text.sameName_iff] at hsame
    exact ⟨op, hop, (Text.sameName_iff op k).2 (hsame.trans hkn.symm)⟩

end

/-- In a run from an empty resource, no document is ever under the class that stands for every
class, none holds an identifier among its attributes, and no request that adds or removes values
changes an attribute that is operational. -/
theorem protected_in_run (capabilities : Capabilities) (fresh : Nat → Uid) (config : Config)
    {rs : List Invocation} (hrs : ∀ r ∈ rs, r.meets .wellFormed = true) :
    ∀ t ∈ (facade capabilities fresh config).history rs empty,
      (∀ key document, t.outcome.state.store.get? key = some document →
        key.objectClass ≠ Text.fold "__ALL__" ∧
          ∃ s : AttributeSet, document = s.toJson ∧ s.contains uidName = false) ∧
      ∀ mode cls uid vs o, t.request = .changeValues mode cls uid vs o → ∀ key,
        (t.outcome.state.store.get? key).map (Json.itemsNamed config.isOperational) =
          (t.before.store.get? key).map (Json.itemsNamed config.isOperational) := by
  have hempty : empty.documents.AllGuarded := fun _ _ h => by cases h
  have hstep : ∀ t ∈ (facade capabilities fresh config).history rs empty,
      t.before.documents.AllGuarded → t.outcome.state.documents.AllGuarded := by
    intro t ht hbefore
    obtain ⟨r, hr, m, rfl⟩ := Facade.eq_of_mem_history _ ht
    exact allGuarded_of_perform (hrs r hr) hbefore
  intro t ht
  obtain ⟨hbefore, hafter⟩ := Facade.history_invariant _
    (P := fun m => m.documents.AllGuarded) hempty hstep t ht
  constructor
  · intro key document hkey
    obtain ⟨hclass, s, hs, -, huid⟩ := hafter key document hkey
    exact ⟨hclass, s, hs, huid⟩
  · intro mode cls uid vs o hrequest key
    obtain ⟨r, -, m, rfl⟩ := Facade.eq_of_mem_history _ ht
    cases hrequest
    exact itemsNamed_of_changeValues hbefore key

/-- An account is made with a login and an address; the login is then to be taken away, in another
spelling, and the address replaced. -/
def loginRun : List Invocation :=
  [.create .account ⟨login :: (mail ["bob@work"]).toList⟩ .default,
   .changeValues .remove .account bob ⟨[⟨⟨"__name__", by decide⟩, [.string "bob"]⟩]⟩ .default,
   .changeValues .add .account bob (mail ["bob@home"]) .default]

theorem loginRun_protected :
    (∀ r ∈ loginRun, r.meets .wellFormed = true) ∧
      ∀ t ∈ (facade .replaceOnly (fun _ => bob) .default).history loginRun empty,
        ∀ mode cls uid vs o, t.request = .changeValues mode cls uid vs o →
          (t.outcome.state.store.get? (key .account bob)).map
              (Json.itemsNamed Config.default.isOperational) =
            (t.before.store.get? (key .account bob)).map
              (Json.itemsNamed Config.default.isOperational) := by
  have hrs : ∀ r ∈ loginRun, r.meets .wellFormed = true := by decide
  refine ⟨hrs, fun t ht mode cls uid vs o hrequest => ?_⟩
  exact (protected_in_run .replaceOnly (fun _ => bob) .default hrs t ht).2 mode cls uid vs o
    hrequest _

end Memory

end Provisioning
