import Provisioning.Proofs.Paths
import Provisioning.Proofs.Writes

/-!
# Which documents can be read

JSON has no word for a NaN or an infinity. A null is written for it, and reading fails there, so a
request may succeed and leave a document that no later request can read. There is no other way to
get one. In a run from an empty resource all documents can be read, and no request fails over one
that cannot, exactly if no request that succeeds writes such a double at any depth (`readable_iff`).
-/
namespace Provisioning

/-- Whether the attributes or deltas of a request meet a condition. -/
def Invocation.meets (c : Condition) : Invocation → Bool
  | .create _ as _ | .update _ _ as _ | .changeValues _ _ _ as _ => AttributeSet.meets c as
  | .updateDelta _ _ ds _ => deltasMeet c ds.toList
  | .getObject .. | .delete .. => true

namespace Documents

/-- Whether every document can be read. -/
def Readable (docs : Documents) : Prop :=
  ∀ key document, docs key = some document → ∃ s, AttributeSet.ofJson document = .ok s

/-- Whether every document can be read, and no double in it is a NaN or an infinity. -/
def Finite (docs : Documents) : Prop :=
  ∀ key document, docs key = some document →
    ∃ s, AttributeSet.ofJson document = .ok s ∧ s.meets .finite = true

/-- The attributes that an edit makes of those of an object, if they can be read. -/
def edited (docs : Documents) (cls : ObjectClass) (uid : Uid) (e : Edit) : Option AttributeSet :=
  (docs.read cls uid).toOption.map e.run

/-- The attributes that a request writes if it succeeds. -/
def written (docs : Documents) : Invocation → Option AttributeSet
  | .create _ as _ => some as
  | .update cls uid as _ => docs.edited cls uid (.replace as)
  | .changeValues mode cls uid vs _ => docs.edited cls uid (.change mode vs)
  | .updateDelta cls uid ds _ => docs.edited cls uid (.apply ds)
  | .getObject .. | .delete .. => none

section

variable {docs after : Documents} {c : Condition}

theorem Finite.readable (h : docs.Finite) : docs.Readable := fun key document hd =>
  (h key document hd).imp fun _ => And.left

theorem Finite.of_read (h : docs.Finite) {cls : ObjectClass} {uid : Uid} {current : AttributeSet}
    (hread : docs.read cls uid = .ok current) : current.meets .finite = true := by
  obtain ⟨document, hd, hcurrent⟩ := read_eq_ok_iff.1 hread
  obtain ⟨s, hs, hfinite⟩ := h _ document hd
  cases hs.symm.trans hcurrent
  exact hfinite

theorem meets_of_edited {cls : ObjectClass} {uid : Uid} {e : Edit} {s : AttributeSet}
    (he : e.meets c = true) (hdocs : ∀ current, docs.read cls uid = .ok current →
      current.meets c = true) (h : docs.edited cls uid e = some s) : s.meets c = true := by
  unfold edited at h
  cases hread : docs.read cls uid with
  | error err =>
    rw [hread] at h
    cases h
  | ok current =>
    rw [hread] at h
    cases h
    exact Edit.meets_run he (hdocs current hread)

/-- What is written meets a condition if the request and all that can be read meet it. -/
theorem meets_of_written {r : Invocation} {s : AttributeSet} (hr : r.meets c = true)
    (hdocs : ∀ cls uid current, docs.read cls uid = .ok current → current.meets c = true)
    (h : docs.written r = some s) : s.meets c = true := by
  cases r with
  | create cls as o =>
    cases h
    exact hr
  | update cls uid as o =>
    exact meets_of_edited (e := .replace as) (Bool.and_eq_true _ _ ▸ hr).2 (hdocs cls uid) h
  | changeValues mode cls uid vs o =>
    exact meets_of_edited (e := .change mode vs) (Bool.and_eq_true _ _ ▸ hr).2 (hdocs cls uid) h
  | updateDelta cls uid ds o => exact meets_of_edited (e := .apply ds) hr (hdocs cls uid) h
  | getObject cls uid o => cases h
  | delete cls uid o => cases h

theorem of_serveEdit_ok {cls : ObjectClass} {uid : Uid} {e : Edit} {reply : Reply}
    (h : docs.serveEdit cls uid e = .ok (reply, after)) :
    ∃ key s, docs.edited cls uid e = some s ∧ after = docs.set key (some s.toJson) := by
  unfold edited
  cases hread : docs.read cls uid with
  | error err =>
    rw [serveEdit_of_error hread] at h
    cases h
  | ok current =>
    rw [serveEdit_of_ok hread] at h
    cases h
    exact ⟨Memory.key cls uid, e.run current, rfl, rfl⟩

/-- A request that succeeds writes one document, or leaves none that was not there. -/
theorem of_serve_ok {fresh : Uid} {r : Invocation} {reply : Reply}
    (h : docs.serve fresh r = .ok (reply, after)) :
    (∃ key s, docs.written r = some s ∧ after = docs.set key (some s.toJson)) ∨
      docs.written r = none ∧
        ∀ key document, after key = some document → docs key = some document := by
  cases r with
  | create cls as o =>
    obtain ⟨p, hp, heq⟩ := of_map_ok h
    cases heq
    obtain ⟨uid, -, hp⟩ := of_bind_ok hp
    dsimp only at hp
    split at hp
    · cases hp
    · cases hp
      exact .inl ⟨Memory.key cls uid, as, rfl, rfl⟩
  | getObject cls uid o =>
    obtain ⟨found, -, heq⟩ := of_map_ok h
    cases heq
    exact .inr ⟨rfl, fun _ _ hkey => hkey⟩
  | update cls uid as o => exact .inl (of_serveEdit_ok h)
  | changeValues mode cls uid vs o => exact .inl (of_serveEdit_ok h)
  | updateDelta cls uid ds o => exact .inl (of_serveEdit_ok h)
  | delete cls uid o =>
    obtain ⟨left, hleft, heq⟩ := of_map_ok h
    cases heq
    unfold delete at hleft
    split at hleft
    · cases hleft
      refine .inr ⟨rfl, fun key document hkey => ?_⟩
      by_cases hk : key = Memory.key cls uid
      · rw [hk, set_self] at hkey
        cases hkey
      · rwa [set_of_ne docs none hk] at hkey
    · cases hleft

/-- What holds of all documents, and of the one that a request writes, holds of all afterwards. -/
theorem forall_of_serve_ok {P : Json → Prop} {fresh : Uid} {r : Invocation} {reply : Reply}
    (hdocs : ∀ key document, docs key = some document → P document)
    (h : docs.serve fresh r = .ok (reply, after))
    (hwritten : ∀ s, docs.written r = some s → P s.toJson) :
    ∀ key document, after key = some document → P document := by
  intro k document hk
  rcases of_serve_ok h with ⟨key, s, hs, rfl⟩ | ⟨-, hleft⟩
  · by_cases hkey : k = key
    · rw [hkey, set_self] at hk
      cases hk
      exact hwritten s hs
    · rw [set_of_ne docs _ hkey] at hk
      exact hdocs k document hk
  · exact hdocs k document (hleft k document hk)

theorem read_ne_document (hdocs : docs.Readable) (cls : ObjectClass) (uid : Uid)
    (fault : DocumentFault) : docs.read cls uid ≠ .error (.document fault) := by
  intro h
  unfold read at h
  cases hd : docs (Memory.key cls uid) with
  | none =>
    rw [hd] at h
    cases h
  | some document =>
    obtain ⟨s, hs⟩ := hdocs _ document hd
    rw [hd] at h
    cases hs.symm.trans h

theorem serveEdit_ne_document (hdocs : docs.Readable) (cls : ObjectClass) (uid : Uid) (e : Edit)
    (fault : DocumentFault) : docs.serveEdit cls uid e ≠ .error (.document fault) := by
  intro h
  cases hread : docs.read cls uid with
  | ok current =>
    rw [serveEdit_of_ok hread] at h
    cases h
  | error err =>
    rw [serveEdit_of_error hread] at h
    cases h
    exact read_ne_document hdocs cls uid fault hread

theorem uidOf_ne_document (fresh : Uid) (attributes : AttributeSet) (fault : DocumentFault) :
    uidOf fresh attributes ≠ .error (.document fault) := by
  intro h
  unfold uidOf at h
  split at h
  · unfold Uid.of? Name.require at h
    split at h <;> cases h
  · cases h

/-- A request fails over a document that cannot be read only if there is one. -/
theorem serve_ne_document (hdocs : docs.Readable) (fresh : Uid) (r : Invocation)
    (fault : DocumentFault) : docs.serve fresh r ≠ .error (.document fault) := by
  cases r with
  | create cls as o =>
    intro h
    cases huid : uidOf fresh as with
    | error err =>
      rw [serve, create_of_error huid] at h
      cases h
      exact uidOf_ne_document fresh as fault huid
    | ok uid =>
      by_cases htaken : (docs (Memory.key cls uid)).isSome = true
      · rw [serve, create_of_taken huid htaken] at h
        cases h
      · rw [serve, create_of_free huid htaken] at h
        cases h
  | getObject cls uid o =>
    intro h
    rw [serve, lookUp] at h
    cases hd : docs (Memory.key cls uid) with
    | none =>
      rw [hd] at h
      cases h
    | some document =>
      obtain ⟨s, hs⟩ := hdocs _ document hd
      simp only [hd, hs] at h
      cases h
  | update cls uid as o => exact serveEdit_ne_document hdocs cls uid _ fault
  | changeValues mode cls uid vs o => exact serveEdit_ne_document hdocs cls uid _ fault
  | updateDelta cls uid ds o => exact serveEdit_ne_document hdocs cls uid _ fault
  | delete cls uid o =>
    intro h
    rw [serve, delete] at h
    split at h <;> cases h

end

end Documents

theorem isRefusal_of_checkClass {cls : ObjectClass} {e : Error} (h : checkClass cls = .error e) :
    e.isRefusal = true := by
  unfold checkClass at h
  split at h <;> cases h
  rfl

theorem isRefusal_of_checkAttributes {parameter : Parameter} {as : AttributeSet} {e : Error}
    (h : checkAttributes parameter as = .error e) : e.isRefusal = true := by
  unfold checkAttributes at h
  split at h <;> cases h
  rfl

theorem isRefusal_of_bind {c : Except Error Unit} {next : Unit → Except Error Unit} {e : Error}
    (hc : ∀ err, c = .error err → err.isRefusal = true)
    (hnext : next () = .error e → e.isRefusal = true) (h : (c >>= next) = .error e) :
    e.isRefusal = true := by
  cases hcheck : c with
  | ok u =>
    rw [hcheck] at h
    exact hnext h
  | error err =>
    rw [hcheck] at h
    cases h
    exact hc e hcheck

/-- A request that does not pass the checks is refused. -/
theorem Config.isRefusal_of_check {config : Config} {r : Invocation} {e : Error}
    (h : config.check r = .error e) : e.isRefusal = true := by
  cases r with
  | create cls as o =>
    exact isRefusal_of_bind (fun _ => isRefusal_of_checkClass) isRefusal_of_checkAttributes h
  | getObject cls uid o => cases h
  | update cls uid as o =>
    exact isRefusal_of_bind (fun _ => isRefusal_of_checkClass) isRefusal_of_checkAttributes h
  | changeValues mode cls uid vs o =>
    refine isRefusal_of_bind (fun _ => isRefusal_of_checkClass) (fun h => ?_) h
    refine isRefusal_of_bind (fun _ => isRefusal_of_checkAttributes) (fun h => ?_) h
    split at h <;> cases h
    rfl
  | updateDelta cls uid ds o =>
    refine isRefusal_of_bind (fun _ => isRefusal_of_checkClass) (fun h => ?_) h
    split at h <;> cases h
    rfl
  | delete cls uid o => exact isRefusal_of_checkClass h

theorem Documents.serveChecked_ne_document {docs : Documents} (hdocs : docs.Readable)
    (config : Config) (fresh : Uid) (r : Invocation) (fault : DocumentFault) :
    docs.serveChecked config fresh r ≠ .error (.document fault) := by
  intro h
  unfold serveChecked at h
  cases hcheck : config.check r with
  | error e =>
    rw [hcheck] at h
    cases h
    cases Config.isRefusal_of_check hcheck
  | ok u =>
    rw [hcheck] at h
    exact serve_ne_document hdocs fresh r fault h

/-- A request that fails, or that writes no NaN and no infinity. -/
def Served.WritesFinite (t : Served Memory) : Prop :=
  ∀ reply, t.outcome.result = .ok reply →
    ∀ s, t.before.documents.written t.request = some s → s.meets .finite = true

namespace Memory

variable {capabilities : Capabilities} {fresh : Nat → Uid} {config : Config} {m : Memory}
  {r : Invocation}

/-- What holds of all documents, and of the one that a request writes if it succeeds, holds of all
after the request. -/
theorem forall_of_perform {P : Json → Prop}
    (hm : ∀ key document, m.documents key = some document → P document)
    (hwritten : ∀ reply, ((facade capabilities fresh config).perform r m).result = .ok reply →
      ∀ s, m.documents.written r = some s → P s.toJson) :
    ∀ key document, ((facade capabilities fresh config).perform r m).state.documents key =
      some document → P document := by
  cases hresult : ((facade capabilities fresh config).perform r m).result with
  | error e =>
    rw [(facade_serves capabilities fresh config m r).documents_of_error hresult]
    exact hm
  | ok reply =>
    obtain ⟨after, hserve, hdocuments⟩ := serve_of_ok hresult
    rw [hdocuments]
    exact Documents.forall_of_serve_ok hm hserve (hwritten reply hresult)

theorem perform_ne_document (hm : m.documents.Readable) (fault : DocumentFault) :
    ((facade capabilities fresh config).perform r m).result ≠ .error (.document fault) := by
  intro h
  rcases facade_serves capabilities fresh config m r with
    ⟨hresult, -, -⟩ | ⟨-, ⟨e, he, href⟩, -⟩
  · rw [h] at hresult
    cases hserve : m.documents.serveChecked config (fresh m.generated) r with
    | ok p =>
      rw [hserve] at hresult
      cases hresult
    | error e =>
      rw [hserve] at hresult
      cases hresult
      exact Documents.serveChecked_ne_document hm config _ r fault hserve
  · rw [h] at he
    cases he
    cases href

theorem wellFormed_of_written {s : AttributeSet} (hr : r.meets .wellFormed = true)
    (hs : m.documents.written r = some s) : s.meets .wellFormed = true :=
  Documents.meets_of_written hr
    (fun _ _ _ hread => (Documents.isReadSet_of_read hread).wellFormed) hs

/-- A request that writes no NaN and no infinity leaves all documents readable. -/
theorem readable_of_perform (hr : r.meets .wellFormed = true) (hm : m.documents.Readable)
    (hfinite : Served.WritesFinite ⟨r, m, (facade capabilities fresh config).perform r m⟩) :
    ((facade capabilities fresh config).perform r m).state.documents.Readable := by
  refine forall_of_perform hm fun reply hok s hs => ⟨s.recast .denoted, ?_⟩
  rw [AttributeSet.ofJson_toJson (wellFormed_of_written hr hs), hfinite reply hok s hs]
  rfl

/-- A request that leaves all documents readable writes no NaN and no infinity. -/
theorem writesFinite_of_readable (hr : r.meets .wellFormed = true)
    (hafter : ((facade capabilities fresh config).perform r m).state.documents.Readable) :
    Served.WritesFinite ⟨r, m, (facade capabilities fresh config).perform r m⟩ := by
  intro reply hok s hs
  obtain ⟨after, hserve, hdocuments⟩ := serve_of_ok hok
  rw [hdocuments] at hafter
  rcases Documents.of_serve_ok hserve with ⟨key, t, ht, rfl⟩ | ⟨hnone, -⟩
  · cases hs.symm.trans ht
    obtain ⟨s', hread⟩ := hafter key s.toJson (Documents.set_self _ key _)
    rw [AttributeSet.ofJson_toJson (wellFormed_of_written hr hs)] at hread
    cases hmeets : s.meets .finite with
    | true => rfl
    | false =>
      rw [hmeets] at hread
      cases hread
  · cases hs.symm.trans hnone

/-- A request that gives no NaN and no infinity leaves none behind. -/
theorem finite_of_perform (hr : r.meets .wellFormed = true) (hfinite : r.meets .finite = true)
    (hm : m.documents.Finite) :
    ((facade capabilities fresh config).perform r m).state.documents.Finite := by
  refine forall_of_perform hm fun reply _ s hs => ⟨s.recast .denoted, ?_, ?_⟩ <;>
    have hmeets := Documents.meets_of_written hfinite (fun _ _ _ => hm.of_read) hs
  · rw [AttributeSet.ofJson_toJson (wellFormed_of_written hr hs), hmeets]
    rfl
  · exact AttributeSet.meets_recast hmeets

section

variable (capabilities : Capabilities) (fresh : Nat → Uid) (config : Config)

theorem readable_empty : empty.documents.Readable :=
  fun _ _ h => by cases h

/-- Requests that give no NaN and no infinity leave only documents that can be read. -/
theorem readable_of_finite {rs : List Invocation} (hrs : ∀ r ∈ rs, r.meets .wellFormed = true)
    (hfinite : ∀ r ∈ rs, r.meets .finite = true) :
    ∀ t ∈ (facade capabilities fresh config).history rs empty,
      t.outcome.state.documents.Readable ∧
        ∀ fault, t.outcome.result ≠ .error (.document fault) := by
  have hempty : empty.documents.Finite := fun _ _ h => by cases h
  have hstep : ∀ t ∈ (facade capabilities fresh config).history rs empty,
      t.before.documents.Finite → t.outcome.state.documents.Finite := by
    intro t ht hbefore
    obtain ⟨r, hr, m, rfl⟩ := Facade.eq_of_mem_history _ ht
    exact finite_of_perform (hrs r hr) (hfinite r hr) hbefore
  intro t ht
  obtain ⟨hbefore, hafter⟩ := Facade.history_invariant _
    (P := fun m => m.documents.Finite) hempty hstep t ht
  obtain ⟨r, -, m, rfl⟩ := Facade.eq_of_mem_history _ ht
  exact ⟨hafter.readable, perform_ne_document hbefore.readable⟩

/-- In a run from an empty resource, all documents can be read and no request fails over one that
cannot, exactly if no request that succeeds writes a NaN or an infinity. -/
theorem readable_iff {rs : List Invocation} (hrs : ∀ r ∈ rs, r.meets .wellFormed = true) :
    (∀ t ∈ (facade capabilities fresh config).history rs empty,
      t.outcome.state.documents.Readable ∧
        ∀ fault, t.outcome.result ≠ .error (.document fault)) ↔
      ∀ t ∈ (facade capabilities fresh config).history rs empty, t.WritesFinite := by
  constructor
  · intro h t ht
    have hafter := (h t ht).1
    obtain ⟨r, hr, m, rfl⟩ := Facade.eq_of_mem_history _ ht
    exact writesFinite_of_readable (hrs r hr) hafter
  · intro h
    have hstep : ∀ t ∈ (facade capabilities fresh config).history rs empty,
        t.before.documents.Readable → t.outcome.state.documents.Readable := by
      intro t ht hbefore
      have hwrites := h t ht
      obtain ⟨r, hr, m, rfl⟩ := Facade.eq_of_mem_history _ ht
      exact readable_of_perform (hrs r hr) hbefore hwrites
    intro t ht
    obtain ⟨hbefore, hafter⟩ := Facade.history_invariant _
      (P := fun m => m.documents.Readable) readable_empty hstep t ht
    obtain ⟨r, -, m, rfl⟩ := Facade.eq_of_mem_history _ ht
    exact ⟨hafter, perform_ne_document hbefore⟩

theorem mailRun_writesFinite :
    (∀ r ∈ mailRun, r.meets .wellFormed = true) ∧
      ∀ t ∈ (facade .full (fun _ => bob) .default).history mailRun empty, t.WritesFinite := by
  have hrs : ∀ r ∈ mailRun, r.meets .wellFormed = true := by decide
  have hfinite : ∀ r ∈ mailRun, r.meets .finite = true := by decide
  exact ⟨hrs, (readable_iff _ _ _ hrs).1 (readable_of_finite _ _ _ hrs hfinite)⟩

/-- An account is made with a height that is not a number, and is looked up. -/
def heightRun : List Invocation :=
  [.create .account ⟨[login, ⟨⟨"height", by decide⟩, [.double .nan]⟩]⟩ .default,
   .getObject .account bob .default]

/-- The account is made, but what is stored for it cannot be read. -/
theorem heightRun_unreadable :
    (∀ r ∈ heightRun, r.meets .wellFormed = true) ∧
      ((facade .full (fun _ => bob) .default).history heightRun empty).map (·.outcome.result) =
        [.ok (.uid bob), .error (.document .nullNumber)] ∧
      ¬ ∀ t ∈ (facade .full (fun _ => bob) .default).history heightRun empty,
        t.outcome.state.documents.Readable ∧
          ∀ fault, t.outcome.result ≠ .error (.document fault) := by
  refine ⟨by decide, rfl, fun h => ?_⟩
  have hlast := h _ (List.mem_cons_of_mem _ List.mem_cons_self)
  exact hlast.2 .nullNumber rfl

end

end Memory

end Provisioning
