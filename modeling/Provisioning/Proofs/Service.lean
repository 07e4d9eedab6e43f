import Provisioning.Proofs.Documents

/-!
# How the resource in memory serves requests

A call is admitted if its operation is offered and no failure is armed for it. An admitted call
answers and changes documents as `Documents.serve` says, and uses up no failure; any other call is
refused and changes no document (`perform_serves`). An edit by way of two calls, one that fetches
the attributes it names and one that writes back what replaces them, comes to the same as the edit
itself (`emulate_serves`).
-/
namespace Provisioning

/-- Whether an error says that a request was turned away: by a check of its arguments, for a missing
capability, or by an armed failure. -/
def Error.isRefusal : Error → Bool
  | .invalidArgument _ | .unsupported _ | .connector _ => true
  | _ => false

/-- The operation that a request names. -/
def Invocation.operation : Invocation → Operation
  | .create .. => .create
  | .getObject .. => .search
  | .update .. => .update
  | .changeValues .. => .updateAttributeValues
  | .updateDelta .. => .complexUpdateDelta
  | .delete .. => .delete

namespace Memory

variable {α β : Type} {capabilities : Capabilities} {fresh : Nat → Uid} {m : Memory}

def documents (m : Memory) : Documents := m.store.get?

/-- An outcome that is what `r` says: its answer, the documents that it leaves, and no failure used
up. -/
structure Answers (m : Memory) (o : Outcome Memory α) (r : Except Error (α × Documents)) :
    Prop where
  result : o.result = r.map Prod.fst
  documents : o.state.documents = m.documents.left r
  armed : o.state.armed = m.armed

/-- An outcome that turns a request away and leaves the documents as they are. -/
structure Refuses (m : Memory) (o : Outcome Memory α) : Prop where
  result : ∃ e, o.result = .error e ∧ e.isRefusal = true
  documents : o.state.documents = m.documents

theorem Answers.map {act : Action Memory α} {r : Except Error (α × Documents)}
    (h : Answers m (act m) r) (f : α → β) :
    Answers m ((f <$> act) m) (r.map fun p => (f p.1, p.2)) := by
  obtain ⟨hresult, hdocuments, harmed⟩ := h
  refine ⟨?_, ?_, ?_⟩
  · rw [Action.result_map, hresult]
    cases r <;> rfl
  · rw [Action.state_map, hdocuments]
    cases r <;> rfl
  · rw [Action.state_map, harmed]

theorem Refuses.map {act : Action Memory α} (h : Refuses m (act m)) (f : α → β) :
    Refuses m ((f <$> act) m) := by
  obtain ⟨⟨e, he, href⟩, hdocuments⟩ := h
  refine ⟨⟨e, ?_, href⟩, ?_⟩
  · rw [Action.result_map, he]
    rfl
  · rw [Action.state_map, hdocuments]

/-- An outcome that is what `r` says, or else a refusal, which cannot be if the way is open. -/
def Serves (opened : Prop) (m : Memory) (o : Outcome Memory α)
    (r : Except Error (α × Documents)) : Prop :=
  Answers m o r ∨ ¬ opened ∧ Refuses m o

namespace Serves

variable {opened : Prop} {act : Action Memory α} {r : Except Error (α × Documents)}

theorem answers {o : Outcome Memory α} (h : Serves opened m o r) (hopened : opened) :
    Answers m o r := by
  rcases h with h | ⟨hclosed, -⟩
  · exact h
  · exact absurd hopened hclosed

theorem imp {opened' : Prop} {o : Outcome Memory α} (h : Serves opened m o r)
    (himp : opened' → opened) : Serves opened' m o r :=
  Or.imp id (fun ⟨hclosed, href⟩ => ⟨fun h' => hclosed (himp h'), href⟩) h

theorem map (h : Serves opened m (act m) r) (f : α → β) :
    Serves opened m ((f <$> act) m) (r.map fun p => (f p.1, p.2)) :=
  Or.imp (Answers.map · f) (fun ⟨hclosed, href⟩ => ⟨hclosed, href.map f⟩) h

theorem map_of {s : Except Error (β × Documents)} (h : Serves opened m (act m) r) (f : α → β)
    (hs : (r.map fun p => (f p.1, p.2)) = s) : Serves opened m ((f <$> act) m) s :=
  hs ▸ h.map f

/-- A check in front of an action is a check in front of what it answers. -/
theorem check {c : Except Error Unit} (h : Serves opened m (act m) r) :
    Serves opened m ((Action.ofExcept c >>= fun _ => act) m) (c >>= fun _ => r) := by
  cases c with
  | ok u => exact h
  | error e => exact .inl ⟨rfl, rfl, rfl⟩

/-- A capability may be asked for that an open way has. -/
theorem require {op : Operation} (h : Serves opened m (act m) r)
    (hneeds : opened → capabilities.supports op = true) :
    Serves opened m ((Action.ofExcept (capabilities.require op) >>= fun _ => act) m) r := by
  unfold Capabilities.require
  by_cases hop : capabilities.supports op = true
  · rw [if_pos hop]
    exact h
  · rw [if_neg hop]
    exact .inr ⟨fun hopened => hop (hneeds hopened), ⟨.unsupported op, rfl, rfl⟩, rfl⟩

/-- Log records around an action do not count. -/
theorem logged (h : Serves opened m (act m) r) (level : LogLevel) (message : String) :
    Serves opened m ((Action.log level message >>= fun _ => act) m) r := by
  rcases h with ⟨hresult, hdocuments, harmed⟩ | ⟨hclosed, ⟨e, he, href⟩, hdocuments⟩
  · refine .inl ⟨?_, ?_, ?_⟩
    · rw [Action.result_log_bind, hresult]
    · rw [Action.state_log_bind, hdocuments]
    · rw [Action.state_log_bind, harmed]
  · refine .inr ⟨hclosed, ⟨e, ?_, href⟩, ?_⟩
    · rw [Action.result_log_bind, he]
    · rw [Action.state_log_bind, hdocuments]

theorem reported (h : Serves opened m (act m) r) (done : α → String) (failed : Error → String) :
    Serves opened m (act.reported done failed m) r := by
  rcases h with ⟨hresult, hdocuments, harmed⟩ | ⟨hclosed, href, hdocuments⟩
  · exact .inl ⟨hresult, hdocuments, harmed⟩
  · exact .inr ⟨hclosed, href, hdocuments⟩

end Serves

/-- Whether a call of an operation is let in. -/
def Admits (capabilities : Capabilities) (m : Memory) (op : Operation) : Prop :=
  capabilities.supports op = true ∧ m.armed op = none

theorem result_enter_bind (op : Operation) (body : Unit → Action Memory α)
    (h : Admits capabilities m op) :
    ((enter capabilities op >>= body) m).result = (body () (count op m)).result ∧
      ((enter capabilities op >>= body) m).state = (body () (count op m)).state := by
  obtain ⟨hs, ha⟩ := h
  have hresult : (enter capabilities op m).result = .ok () ∧
      (enter capabilities op m).state = count op m := by
    have hcount : (count op m).armed op = none := ha
    simp only [enter, Action.result_bind, Action.state_bind, Action.modify, Action.log, Action.get,
      Action.result_ofExcept, Action.state_ofExcept, Capabilities.require, hs, ↓reduceIte]
    simp only [bind, Except.bind, hcount]
    exact ⟨rfl, rfl⟩
  rw [Action.result_bind, Action.state_bind, hresult.1, hresult.2]
  exact ⟨rfl, rfl⟩

theorem enter_refuses {op : Operation} (h : ¬ Admits capabilities m op) :
    Refuses m (enter capabilities op m) := by
  suffices hparts : ∃ e, (enter capabilities op m).result = .error e ∧ e.isRefusal = true ∧
      (enter capabilities op m).state.documents = m.documents by
    obtain ⟨e, he, href, hdocuments⟩ := hparts
    exact ⟨⟨e, he, href⟩, hdocuments⟩
  simp only [enter, Action.result_bind, Action.state_bind, Action.modify, Action.log, Action.get,
    Action.result_ofExcept, Action.state_ofExcept, Capabilities.require]
  by_cases hs : capabilities.supports op = true
  · cases ha : m.armed op with
    | none => exact absurd ⟨hs, ha⟩ h
    | some failure =>
      have hcount : (count op m).armed op = some failure := ha
      simp only [hs, ↓reduceIte, bind, Except.bind, hcount]
      exact ⟨.connector failure, rfl, rfl, rfl⟩
  · simp only [hs, Bool.false_eq_true, ↓reduceIte, bind, Except.bind]
    exact ⟨.unsupported op, rfl, rfl, rfl⟩

/-- A call is served if its body, once the call is counted, answers what it should. -/
theorem enter_bind_serves {op : Operation} {body : Unit → Action Memory α}
    {r : Except Error (α × Documents)}
    (hb : Answers (count op m) (body () (count op m)) r) :
    Serves (Admits capabilities m op) m ((enter capabilities op >>= body) m) r := by
  by_cases h : Admits capabilities m op
  · obtain ⟨hresult, hstate⟩ := result_enter_bind op body h
    exact .inl ⟨hresult.trans hb.result, hstate ▸ hb.documents, hstate ▸ hb.armed⟩
  · obtain ⟨⟨e, he, href⟩, hdocuments⟩ := enter_refuses h
    rw [Action.bind_of_error he]
    exact .inr ⟨h, ⟨e, rfl, href⟩, hdocuments⟩

theorem documents_put (m : Memory) (key : Store.Key) (document : Json) :
    documents { m with store := m.store.put key document } =
      m.documents.set key (some document) :=
  funext fun k => Store.get?_put m.store key k document

theorem documents_delete (m : Memory) (key : Store.Key) :
    documents { m with store := (m.store.delete key).2 } = m.documents.set key none :=
  funext fun k => Store.get?_delete m.store key k

theorem load_eq (m : Memory) (cls : ObjectClass) (uid : Uid) :
    (load cls uid m).state = m ∧ (load cls uid m).result =
      match m.documents (key cls uid) with
      | some document => (AttributeSet.ofJson document).map some
      | none => .ok none := by
  cases h : m.documents (key cls uid) with
  | none =>
    have hget : (onStore (Store.getting (key cls uid)) m).result = .ok none := congrArg Except.ok h
    rw [load, Action.bind_of_ok hget]
    exact ⟨rfl, rfl⟩
  | some document =>
    have hget : (onStore (Store.getting (key cls uid)) m).result = .ok (some document) :=
      congrArg Except.ok h
    rw [load, Action.bind_of_ok hget]
    simp only [Action.result_bind, Action.state_bind, Action.result_ofExcept,
      Action.state_ofExcept, Action.result_pure, Action.state_pure]
    cases AttributeSet.ofJson document <;> exact ⟨rfl, rfl⟩

theorem loadExisting_eq (m : Memory) (cls : ObjectClass) (uid : Uid) :
    (loadExisting cls uid m).state = m ∧
      (loadExisting cls uid m).result = m.documents.read cls uid := by
  obtain ⟨hstate, hresult⟩ := load_eq m cls uid
  unfold loadExisting Documents.read
  rw [Action.result_bind, Action.state_bind, hstate, hresult]
  cases m.documents (key cls uid) with
  | none => exact ⟨rfl, rfl⟩
  | some document =>
    dsimp only
    cases AttributeSet.ofJson document <;> exact ⟨rfl, rfl⟩

/-- Reading an object and writing back what an edit makes of it. -/
theorem edit_answers (m : Memory) (cls : ObjectClass) (uid : Uid) (e : Edit)
    {body : AttributeSet → Action Memory α} {a : α}
    (hbody : ∀ current, (body current m).result = .ok a ∧ (body current m).state =
      { m with store := m.store.put (key cls uid) (e.run current).toJson }) :
    Answers m ((loadExisting cls uid >>= body) m)
      ((m.documents.edit cls uid e).map fun docs => (a, docs)) := by
  obtain ⟨hstate, hload⟩ := loadExisting_eq m cls uid
  rw [Documents.edit]
  cases h : m.documents.read cls uid with
  | error err =>
    rw [Action.bind_of_error (hload.trans h), hstate]
    exact ⟨rfl, rfl, rfl⟩
  | ok current =>
    obtain ⟨hresult, hafter⟩ := hbody current
    rw [Action.bind_of_ok (hload.trans h), hstate, hresult, hafter]
    exact ⟨rfl, documents_put m _ _, rfl⟩

theorem newUid_answers (fresh : Nat → Uid) (m : Memory) (attributes : AttributeSet) :
    (newUid fresh attributes m).result = Documents.uidOf (fresh m.generated) attributes ∧
      (newUid fresh attributes m).state.documents = m.documents ∧
      (newUid fresh attributes m).state.armed = m.armed := by
  unfold newUid Documents.uidOf
  cases givenUid? attributes <;> exact ⟨rfl, rfl, rfl⟩

/-- Goes on with the store that an access returned, or fails as it did. -/
def takeOver : Except Store.Failure Store → Action Store Unit
  | .ok s => .modify fun _ => s
  | .error failure => .fail (.storage failure)

theorem inserting_eq (m : Memory) (key : Store.Key) (document : Json) :
    (onStore (Store.inserting key document) m).result =
        (if (m.documents key).isSome then .error (.storage (.alreadyExists key)) else .ok ()) ∧
      (onStore (Store.inserting key document) m).state =
        if (m.documents key).isSome then m
        else { m with store := m.store.put key document } := by
  show (takeOver (m.store.insert key document) m.store).result = _ ∧
    { m with store := (takeOver (m.store.insert key document) m.store).state } = _
  have hinsert : m.store.insert key document =
      if (m.documents key).isSome then .error (.alreadyExists key)
      else .ok (m.store.put key document) := rfl
  rw [hinsert]
  by_cases htaken : (m.documents key).isSome = true
  · simp only [if_pos htaken]
    exact ⟨rfl, rfl⟩
  · simp only [if_neg htaken]
    exact ⟨rfl, rfl⟩

theorem insert_answers (fresh : Nat → Uid) (m : Memory) (cls : ObjectClass)
    (attributes : AttributeSet) :
    Answers m ((newUid fresh attributes >>= fun uid =>
        onStore (Store.inserting (key cls uid) attributes.toJson) >>= fun _ => pure uid) m)
      (m.documents.create (fresh m.generated) cls attributes) := by
  obtain ⟨hresult, hdocuments, harmed⟩ := newUid_answers fresh m attributes
  cases h : Documents.uidOf (fresh m.generated) attributes with
  | error err =>
    rw [Documents.create_of_error h, Action.bind_of_error (hresult.trans h)]
    exact ⟨rfl, hdocuments, harmed⟩
  | ok uid =>
    rw [Action.bind_of_ok (hresult.trans h)]
    generalize (newUid fresh attributes m).state = m' at hdocuments harmed
    obtain ⟨hinsert, hstate⟩ := inserting_eq m' (key cls uid) attributes.toJson
    rw [hdocuments] at hinsert hstate
    by_cases htaken : (m.documents (key cls uid)).isSome = true
    · rw [if_pos htaken] at hinsert hstate
      rw [Documents.create_of_taken h htaken, Action.bind_of_error hinsert, hstate]
      exact ⟨rfl, hdocuments, harmed⟩
    · rw [if_neg htaken] at hinsert hstate
      rw [Documents.create_of_free h htaken, Action.bind_of_ok hinsert, hstate]
      refine ⟨rfl, ?_, harmed⟩
      exact (documents_put m' _ _).trans (by rw [hdocuments]; rfl)

theorem lookUp_answers (m : Memory) (cls : ObjectClass) (uid : Uid) (options : Options) :
    Answers m ((load cls uid >>= fun found => match found with
        | some attributes => pure (some
            ⟨cls, uid, ⟨attributes.toList.filter fun a => options.wants a.name.text⟩⟩)
        | none => pure none) m)
      ((m.documents.lookUp cls uid options).map (·, m.documents)) := by
  obtain ⟨hstate, hload⟩ := load_eq m cls uid
  unfold Documents.lookUp
  cases h : m.documents (key cls uid) with
  | none =>
    rw [h] at hload
    rw [Action.bind_of_ok hload, hstate]
    exact ⟨rfl, rfl, rfl⟩
  | some document =>
    rw [h] at hload
    dsimp only at hload ⊢
    cases hd : AttributeSet.ofJson document with
    | error e =>
      rw [hd] at hload
      rw [Action.bind_of_error hload, hstate]
      exact ⟨rfl, rfl, rfl⟩
    | ok s =>
      rw [hd] at hload
      rw [Action.bind_of_ok hload, hstate]
      exact ⟨rfl, rfl, rfl⟩

theorem erase_answers (m : Memory) (cls : ObjectClass) (uid : Uid) :
    Answers m ((onStore (Store.deleting (key cls uid)) >>= fun found =>
        if found then pure () else .fail (.objectNotFound cls.text uid.text)) m)
      ((m.documents.delete cls uid).map ((), ·)) := by
  have hfound : (onStore (Store.deleting (key cls uid)) m).result =
      .ok (m.documents (key cls uid)).isSome := rfl
  have hstate : (onStore (Store.deleting (key cls uid)) m).state =
      { m with store := (m.store.delete (key cls uid)).2 } := rfl
  rw [Action.bind_of_ok hfound, hstate]
  unfold Documents.delete
  by_cases h : (m.documents (key cls uid)).isSome = true
  · rw [if_pos h, if_pos h]
    exact ⟨rfl, documents_delete m _, rfl⟩
  · have hnone : m.documents (key cls uid) = none := by
      rwa [Bool.not_eq_true, Option.isSome_eq_false_iff, Option.isNone_iff_eq_none] at h
    rw [if_neg h, if_neg h]
    exact ⟨rfl, (documents_delete m _).trans (Documents.set_eq_self hnone), rfl⟩

/-- An edit in one call: reading the object, and laying the replacements over it. -/
theorem replace_answers (m : Memory) (cls : ObjectClass) (uid : Uid) (e : Edit) :
    Answers m ((loadExisting cls uid >>= fun current =>
        replaceValues cls uid current (e.replacements current)) m)
      ((m.documents.edit cls uid e).map (uid, ·)) :=
  edit_answers m cls uid e fun _ => ⟨rfl, rfl⟩

section

variable (capabilities : Capabilities) (fresh : Nat → Uid) (m : Memory)

theorem create_serves (cls : ObjectClass) (attributes : AttributeSet) (options : Options) :
    Serves (Admits capabilities m .create) m
      ((connector capabilities fresh).create cls attributes options m)
      (m.documents.create (fresh m.generated) cls attributes) :=
  enter_bind_serves (insert_answers fresh (count .create m) cls attributes)

theorem getObject_serves (cls : ObjectClass) (uid : Uid) (options : Options) :
    Serves (Admits capabilities m .search) m
      ((connector capabilities fresh).getObject cls uid options m)
      ((m.documents.lookUp cls uid options).map (·, m.documents)) :=
  enter_bind_serves (lookUp_answers (count .search m) cls uid options)

theorem update_serves (cls : ObjectClass) (uid : Uid) (attributes : AttributeSet)
    (options : Options) :
    Serves (Admits capabilities m .update) m
      ((connector capabilities fresh).update cls uid attributes options m)
      ((m.documents.edit cls uid (.replace attributes)).map (uid, ·)) :=
  enter_bind_serves (replace_answers (count .update m) cls uid (.replace attributes))

theorem changeValues_serves (mode : UpdateMode) (cls : ObjectClass) (uid : Uid)
    (values : AttributeSet) :
    Serves (Admits capabilities m .updateAttributeValues) m
      (changeValues capabilities mode cls uid values m)
      ((m.documents.edit cls uid (.change mode values)).map (uid, ·)) :=
  enter_bind_serves
    (replace_answers (count .updateAttributeValues m) cls uid (.change mode values))

theorem updateDelta_serves (cls : ObjectClass) (uid : Uid) (deltas : DeltaSet)
    (options : Options) :
    Serves (Admits capabilities m .complexUpdateDelta) m
      ((connector capabilities fresh).updateDelta cls uid deltas options m)
      ((m.documents.edit cls uid (.apply deltas)).map (Keyed.empty, ·)) :=
  enter_bind_serves
    (edit_answers (count .complexUpdateDelta m) cls uid (.apply deltas) fun _ => ⟨rfl, rfl⟩)

theorem delete_serves (cls : ObjectClass) (uid : Uid) (options : Options) :
    Serves (Admits capabilities m .delete) m
      ((connector capabilities fresh).delete cls uid options m)
      ((m.documents.delete cls uid).map ((), ·)) :=
  enter_bind_serves (erase_answers (count .delete m) cls uid)

/-- A call does what the request means, or is refused if it is not admitted. -/
theorem perform_serves (r : Invocation) :
    Serves (Admits capabilities m r.operation) m ((connector capabilities fresh).perform r m)
      (m.documents.serve (fresh m.generated) r) := by
  cases r with
  | create cls as o => exact (create_serves capabilities fresh m cls as o).map Reply.uid
  | getObject cls uid o =>
    exact (getObject_serves capabilities fresh m cls uid o).map_of Reply.found
      (except_map_map _ _ _)
  | update cls uid as o =>
    exact (update_serves capabilities fresh m cls uid as o).map_of Reply.uid
      (except_map_map _ _ _)
  | changeValues mode cls uid vs o =>
    have h := (changeValues_serves capabilities m mode cls uid vs).map_of Reply.uid
      (except_map_map _ _ _)
    cases mode <;> exact h
  | updateDelta cls uid ds o =>
    exact (updateDelta_serves capabilities fresh m cls uid ds o).map_of Reply.effects
      (except_map_map _ _ _)
  | delete cls uid o =>
    exact (delete_serves capabilities fresh m cls uid o).map_of (fun _ => Reply.done)
      (except_map_map _ _ _)

end

theorem wanted_eq_restrict (s : AttributeSet) (options : Options) (names : List String) :
    ⟨s.toList.filter fun a => (options.asking names).wants a.name.text⟩ = s.restrict names := by
  have hwants (a : Attribute) :
      (options.asking names).wants a.name.text = names.any (HasName.is a ·) :=
    congrArg names.any (funext fun n => Text.sameName_comm n a.name.text)
  exact congrArg (fun p => Keyed.mk (s.toList.filter p)) (funext hwants)

theorem fetch_serves (capabilities : Capabilities) (fresh : Nat → Uid) (m : Memory)
    (cls : ObjectClass) (uid : Uid) (names : List String) (options : Options) :
    Serves (Admits capabilities m .search) m
      (fetchAttributes (connector capabilities fresh) cls uid names options m)
      ((m.documents.read cls uid).map fun s => (s.restrict names, m.documents)) := by
  unfold fetchAttributes
  rcases getObject_serves capabilities fresh m cls uid (options.asking names) with
    ⟨hresult, hdocuments, harmed⟩ | ⟨hclosed, ⟨e, he, href⟩, hdocuments⟩
  · left
    unfold Documents.lookUp at hresult hdocuments
    unfold Documents.read
    cases hd : m.documents (key cls uid) with
    | none =>
      rw [hd] at hresult hdocuments
      rw [Action.bind_of_ok hresult]
      exact ⟨rfl, hdocuments, harmed⟩
    | some document =>
      rw [hd] at hresult hdocuments
      dsimp only at hresult hdocuments ⊢
      cases hs : AttributeSet.ofJson document with
      | error e =>
        rw [hs] at hresult hdocuments
        rw [Action.bind_of_error hresult]
        exact ⟨rfl, hdocuments, harmed⟩
      | ok s =>
        rw [hs] at hresult hdocuments
        rw [Action.bind_of_ok hresult]
        exact ⟨congrArg Except.ok (wanted_eq_restrict s options names), hdocuments, harmed⟩
  · rw [Action.bind_of_error he]
    exact .inr ⟨hclosed, ⟨e, rfl, href⟩, hdocuments⟩

/-- Writing back what replaces the attributes that an edit names, in a state with the same documents
and failures as the one in which they were read. -/
theorem writeBack_serves {cls : ObjectClass} {uid : Uid} {current : AttributeSet}
    (options : Options) (e : Edit) (f : Uid → α)
    (hread : m.documents.read cls uid = .ok current) {m' : Memory}
    (hdocuments : m'.documents = m.documents) (harmed : m'.armed = m.armed) {o : Outcome Memory α}
    (hresult : o.result = ((connector capabilities fresh).update cls uid
      (e.replacements current) options m').result.map f)
    (hstate : o.state = ((connector capabilities fresh).update cls uid
      (e.replacements current) options m').state) :
    Serves (Admits capabilities m .update) m o
      ((m.documents.edit cls uid e).map (f uid, ·)) := by
  have hok : m.documents.edit cls uid e =
      .ok (m.documents.set (key cls uid) (some (e.run current).toJson)) := by
    rw [Documents.edit, hread]
    rfl
  have hedit : m'.documents.edit cls uid (.replace (e.replacements current)) =
      .ok (m.documents.set (key cls uid) (some (e.run current).toJson)) := by
    rw [hdocuments, Documents.edit, hread]
    rfl
  have hupdate := update_serves capabilities fresh m' cls uid (e.replacements current) options
  rw [hedit] at hupdate
  rw [hok]
  rcases hupdate with ⟨hupdate, hafter, harmed'⟩ | ⟨hclosed, ⟨err, herr, href⟩, hafter⟩
  · refine .inl ⟨?_, ?_, ?_⟩
    · rw [hresult, hupdate]
      rfl
    · rw [hstate, hafter]
      rfl
    · rw [hstate, harmed', harmed]
  · refine .inr ⟨fun hopened => hclosed ?_, ⟨err, ?_, href⟩, ?_⟩
    · rw [Admits, harmed]
      exact hopened
    · rw [hresult, herr]
      rfl
    · rw [hstate, hafter, hdocuments]

/-- Fetching the attributes that an edit names, and writing back what replaces them, is the edit
itself: it reads none of the others, and leaves them as they are. -/
theorem emulate_serves (cls : ObjectClass) (uid : Uid) (options : Options) (e : Edit) (f : Uid → α)
    {body : AttributeSet → Action Memory α}
    (hbody : ∀ base s,
      (body base s).result = ((connector capabilities fresh).update cls uid
        (e.replacements base) options s).result.map f ∧
      (body base s).state = ((connector capabilities fresh).update cls uid
        (e.replacements base) options s).state) :
    Serves (Admits capabilities m .search ∧ Admits capabilities m .update) m
      ((fetchAttributes (connector capabilities fresh) cls uid e.names options >>= body) m)
      ((m.documents.edit cls uid e).map (f uid, ·)) := by
  rcases fetch_serves capabilities fresh m cls uid e.names options with
    ⟨hfetch, hdocuments, harmed⟩ | ⟨hclosed, ⟨err, herr, href⟩, hdocuments⟩
  · cases hread : m.documents.read cls uid with
    | error err =>
      rw [hread] at hfetch hdocuments
      rw [Action.bind_of_error hfetch, Documents.edit, hread]
      exact .inl ⟨rfl, hdocuments, harmed⟩
    | ok current =>
      rw [hread] at hfetch hdocuments
      obtain ⟨hresult, hstate⟩ := hbody (current.restrict e.names)
        (fetchAttributes (connector capabilities fresh) cls uid e.names options m).state
      rw [Edit.replacements_restrict] at hresult hstate
      rw [Action.bind_of_ok hfetch]
      exact Serves.imp (writeBack_serves options e f hread hdocuments harmed hresult hstate)
        And.right
  · rw [Action.bind_of_error herr]
    exact .inr ⟨fun hboth => hclosed hboth.1, ⟨err, rfl, href⟩, hdocuments⟩

end Memory

end Provisioning
