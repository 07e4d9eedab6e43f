import Provisioning.Proofs.Exchange
import Provisioning.Proofs.Service

/-!
# The facade in front of the resource in memory

Through the facade every request does what `Documents.serveChecked` says, or is refused and changes
no document (`facade_serves`). It is refused only if the path that its kind takes is not open: an
operation is missing or armed to fail, or deltas are not to be emulated (`Reaches`). Either way a
request that fails leaves all documents as they were (`unchanged_of_error`).
-/
namespace Provisioning.Memory

variable {capabilities : Capabilities} {m : Memory}

/-- The facade in front of the resource with the given capabilities. -/
def facade (capabilities : Capabilities) (fresh : Nat → Uid) (config : Config) : Facade Memory :=
  ⟨connector capabilities fresh, config⟩

/-- Whether a request gets through to the resource: an update by value or by deltas by its own
operation if there is one, else by way of a look-up and a replacement. -/
def Reaches (capabilities : Capabilities) (config : Config) (m : Memory) (r : Invocation) : Prop :=
  match r with
  | .changeValues .. =>
    if capabilities.supports .updateAttributeValues then
      Admits capabilities m .updateAttributeValues
    else Admits capabilities m .search ∧ Admits capabilities m .update
  | .updateDelta .. =>
    if capabilities.supports .complexUpdateDelta then Admits capabilities m .complexUpdateDelta
    else config.emulateDeltas = true ∧
      Admits capabilities m .search ∧ Admits capabilities m .update
  | r => Admits capabilities m r.operation

theorem requireFetchAndReplace_of_supports (hs : capabilities.supports .search = true)
    (hu : capabilities.supports .update = true) :
    capabilities.requireFetchAndReplace = .ok () := by
  rw [requireFetchAndReplace_eq, if_pos hs, if_pos hu]

theorem requireFetchAndReplace_of_not_supports
    (h : ¬ (capabilities.supports .search = true ∧ capabilities.supports .update = true)) :
    ∃ op, capabilities.requireFetchAndReplace = .error (.unsupported op) := by
  rw [requireFetchAndReplace_eq]
  by_cases hs : capabilities.supports .search = true
  · have hu : ¬ capabilities.supports .update = true := fun hu => h ⟨hs, hu⟩
    rw [if_pos hs, if_neg hu]
    exact ⟨.update, rfl⟩
  · rw [if_neg hs]
    exact ⟨.search, rfl⟩

section

variable (capabilities : Capabilities) (fresh : Nat → Uid) (config : Config) (m : Memory)

/-- Values are changed natively if the resource offers that, else by fetching and writing back. -/
theorem reconcile_serves (cls : ObjectClass) (uid : Uid) (mode : UpdateMode) (vs : AttributeSet)
    (options : Options) (message : Path → String) :
    Serves (Reaches capabilities config m (.changeValues mode cls uid vs options)) m
      ((do
        let path ← Action.ofExcept (Path.select capabilities)
        Action.log .info (message path)
        reconcile (connector capabilities fresh) cls uid vs mode options) m)
      ((m.documents.edit cls uid (.change mode vs)).map (uid, ·)) := by
  unfold Reaches
  by_cases hnative : capabilities.supports .updateAttributeValues = true
  · have hpath : Path.select capabilities = .ok .native := if_pos hnative
    have hreconcile : reconcile (connector capabilities fresh) cls uid vs mode options =
        changeValues capabilities mode cls uid vs := by
      rw [reconcile_of_native _ cls uid options mode vs hnative]
      cases mode <;> rfl
    simp only [hnative, ↓reduceIte]
    rw [hpath, Action.ofExcept_ok_bind, hreconcile]
    exact (changeValues_serves capabilities m mode cls uid vs).logged _ _
  · simp only [hnative, Bool.false_eq_true, ↓reduceIte]
    by_cases hboth : capabilities.supports .search = true ∧ capabilities.supports .update = true
    · have hpath : Path.select capabilities = .ok .fetchAndMerge := by
        unfold Path.select
        rw [if_neg hnative, requireFetchAndReplace_of_supports hboth.1 hboth.2]
        rfl
      have hreconcile : reconcile (connector capabilities fresh) cls uid vs mode options =
          fetchAttributes (connector capabilities fresh) cls uid vs.names options >>= fun base =>
            (connector capabilities fresh).update cls uid (mergeChanges mode vs base) options := by
        unfold reconcile
        rw [show (connector capabilities fresh).capabilities = capabilities from rfl, hpath]
        rfl
      rw [hpath, Action.ofExcept_ok_bind, hreconcile]
      refine Serves.logged ?_ _ _
      exact emulate_serves cls uid options (.change mode vs) id fun base s =>
        ⟨(congrFun Except.map_id _).symm, rfl⟩
    · obtain ⟨op, hop⟩ := requireFetchAndReplace_of_not_supports hboth
      have hpath : Path.select capabilities = .error (.unsupported op) := by
        unfold Path.select
        rw [if_neg hnative, hop]
        rfl
      rw [hpath, Action.ofExcept_error_bind]
      exact .inr ⟨fun h => hboth ⟨h.1.1, h.2.1⟩, ⟨.unsupported op, rfl, rfl⟩, rfl⟩

theorem reconcileDeltas_serves (cls : ObjectClass) (uid : Uid) (ds : DeltaSet)
    (options : Options) :
    Serves (Admits capabilities m .search ∧ Admits capabilities m .update) m
      (reconcileDeltas (connector capabilities fresh) cls uid ds options m)
      ((m.documents.edit cls uid (.apply ds)).map (Keyed.empty, ·)) := by
  have hcapabilities : (connector capabilities fresh).capabilities = capabilities := rfl
  unfold reconcileDeltas
  rw [hcapabilities]
  by_cases hboth : capabilities.supports .search = true ∧ capabilities.supports .update = true
  · rw [requireFetchAndReplace_of_supports hboth.1 hboth.2, Action.ofExcept_ok_bind]
    refine emulate_serves cls uid options (.apply ds) (fun _ => Keyed.empty) fun base s => ?_
    rw [Action.result_ofTraced_bind, Action.state_ofTraced_bind, Action.result_bind,
      Action.state_bind]
    rw [Edit.replacements, DeltaSet.applyTo]
    generalize (connector capabilities fresh).update cls uid _ options s = o
    cases o.result <;> exact ⟨rfl, rfl⟩
  · obtain ⟨op, hop⟩ := requireFetchAndReplace_of_not_supports hboth
    rw [hop, Action.ofExcept_error_bind]
    exact .inr ⟨fun h => hboth ⟨h.1.1, h.2.1⟩, ⟨.unsupported op, rfl, rfl⟩, rfl⟩

/-- Deltas are applied natively if the resource offers that, else emulated if configured. -/
theorem deltas_serve (cls : ObjectClass) (uid : Uid) (ds : DeltaSet) (options : Options) :
    Serves (Reaches capabilities config m (.updateDelta cls uid ds options)) m
      ((if capabilities.supports .complexUpdateDelta then do
          Action.log .info ("delta update on " ++ Facade.place cls uid ++ " via native path")
          (connector capabilities fresh).updateDelta cls uid ds options
        else if config.emulateDeltas then do
          Action.log .info
            ("delta update on " ++ Facade.place cls uid ++ " via fetch-and-merge path")
          reconcileDeltas (connector capabilities fresh) cls uid ds options
        else Action.fail (.unsupported .complexUpdateDelta)) m)
      ((m.documents.edit cls uid (.apply ds)).map (Keyed.empty, ·)) := by
  unfold Reaches
  by_cases hnative : capabilities.supports .complexUpdateDelta = true
  · simp only [hnative, ↓reduceIte]
    exact (updateDelta_serves capabilities fresh m cls uid ds options).logged _ _
  · simp only [hnative, Bool.false_eq_true, ↓reduceIte]
    by_cases hemulate : config.emulateDeltas = true
    · simp only [hemulate, ↓reduceIte, true_and]
      exact (reconcileDeltas_serves capabilities fresh m cls uid ds options).logged _ _
    · simp only [hemulate, Bool.false_eq_true, ↓reduceIte, false_and]
      exact .inr ⟨id, ⟨.unsupported .complexUpdateDelta, rfl, rfl⟩, rfl⟩

/-- What follows checks may be mapped before or after them. -/
theorem map_check {α β : Type} (c : Except Error Unit) (r : Except Error α) (f : α → β) :
    (c >>= fun _ => r).map f = c >>= fun _ => r.map f := by
  cases c <;> rfl

/-- Through the facade a request does what it means to do, or is refused if its path is not open. -/
theorem facade_serves (r : Invocation) :
    Serves (Reaches capabilities config m r) m ((facade capabilities fresh config).perform r m)
      (m.documents.serveChecked config (fresh m.generated) r) := by
  cases r with
  | create cls as o =>
    have hcall := (create_serves capabilities fresh m cls as o).require And.left
    have hchecked := (hcall.check (c := checkAttributes .createAttributes as)).check
      (c := checkClass cls)
    refine (Serves.logged (hchecked.reported _ _) _ _).map_of Reply.uid ?_
    rw [map_check, map_check, Documents.serveChecked, Config.check, bind_assoc]
    rfl
  | getObject cls uid o =>
    have hcall := (getObject_serves capabilities fresh m cls uid o).require And.left
    refine (Serves.logged (hcall.reported _ _) _ _).map_of Reply.found ?_
    rw [except_map_map]
    rfl
  | update cls uid as o =>
    have hcall := (update_serves capabilities fresh m cls uid as o).require And.left
    have hchecked := (hcall.check (c := checkAttributes .replaceAttributes as)).check
      (c := checkClass cls)
    refine (Serves.logged (hchecked.reported _ _) _ _).map_of Reply.uid ?_
    rw [map_check, map_check, except_map_map, Documents.serveChecked, Config.check,
      bind_assoc]
    rfl
  | changeValues mode cls uid vs o =>
    have hcall := reconcile_serves capabilities fresh config m cls uid mode vs o fun path =>
      mode.label ++ " values on " ++ Facade.place cls uid ++ " via " ++ path.label ++ " path"
    have hchecked := hcall.check (c := checkValueChanges config cls vs)
    have h : Serves (Reaches capabilities config m (.changeValues mode cls uid vs o)) m
        ((Reply.uid <$> (facade capabilities fresh config).changeValues mode cls uid vs o) m)
        (m.documents.serveChecked config (fresh m.generated)
          (.changeValues mode cls uid vs o)) := by
      refine (Serves.logged (hchecked.reported _ _) _ _).map_of Reply.uid ?_
      rw [map_check, except_map_map]
      rfl
    cases mode <;> exact h
  | updateDelta cls uid ds o =>
    have hcall := deltas_serve capabilities fresh config m cls uid ds o
    have hchecked := hcall.check (c := checkDeltas cls ds)
    refine (Serves.logged (hchecked.reported _ _) _ _).map_of Reply.effects ?_
    rw [map_check, except_map_map]
    rfl
  | delete cls uid o =>
    have hcall := (delete_serves capabilities fresh m cls uid o).require And.left
    have hchecked := hcall.check (c := checkClass cls)
    refine (Serves.logged (hchecked.reported _ _) _ _).map_of (fun _ => Reply.done) ?_
    rw [map_check, except_map_map]
    rfl

end

theorem Serves.documents_of_error {opened : Prop} {α : Type} {o : Outcome Memory α}
    {r : Except Error (α × Documents)} {e : Error} (h : Serves opened m o r)
    (he : o.result = .error e) : o.state.documents = m.documents := by
  rcases h with ⟨hresult, hdocuments, -⟩ | ⟨-, -, hdocuments⟩
  · cases r with
    | ok p =>
      rw [hresult] at he
      cases he
    | error err => exact hdocuments
  · exact hdocuments

/-- How many documents a class has depends only on the documents. -/
theorem count_congr {s t : Store} (h : ∀ key, s.get? key = t.get? key) (cls : String) :
    s.count cls = t.count cls := by
  have hdocuments : s.documents (Text.fold cls) = t.documents (Text.fold cls) :=
    Table.ext_find? fun id => h ⟨Text.fold cls, id⟩
  rw [Store.count, Store.count, hdocuments]

/-- A request that fails, of the facade or of the connector, changes no document of any class and
no count of them. -/
theorem unchanged_of_error (capabilities : Capabilities) (fresh : Nat → Uid) (config : Config)
    (m : Memory) (r : Invocation) {o : Outcome Memory Reply} {e : Error}
    (ho : o = (facade capabilities fresh config).perform r m ∨
      o = (connector capabilities fresh).perform r m)
    (he : o.result = .error e) :
    (∀ key, o.state.store.get? key = m.store.get? key) ∧
      ∀ cls, o.state.store.count cls = m.store.count cls := by
  have hdocuments : o.state.documents = m.documents := by
    rcases ho with rfl | rfl
    · exact (facade_serves capabilities fresh config m r).documents_of_error he
    · exact (perform_serves capabilities fresh m r).documents_of_error he
  have hget (key : Store.Key) : o.state.store.get? key = m.store.get? key :=
    congrFun hdocuments key
  exact ⟨hget, count_congr hget⟩

def bob : Uid := ⟨⟨"bob", by decide⟩⟩

def login : Attribute := ⟨⟨loginName, by decide⟩, [.string "bob"]⟩

def mail (addresses : List String) : AttributeSet :=
  ⟨[⟨⟨"mail", by decide⟩, addresses.map .string⟩]⟩

/-- A resource with one account. -/
def withMail (addresses : List String) : Memory :=
  { empty with store := Store.empty.put (key .account bob) (mail addresses).toJson }

def ailing : Memory := (withMail ["bob@work"]).failNext .update (.unavailable "down")

/-- The object has been fetched, and its new values computed, when the replacement fails. -/
theorem unchanged_of_armed_replacement :
    let o := (facade .replaceOnly (fun _ => bob) .default).perform
      (.changeValues .add .account bob (mail ["bob@home"]) .default) ailing
    o.result = .error (.connector (.unavailable "down")) ∧
      (∀ key, o.state.store.get? key = ailing.store.get? key) ∧
      ∀ cls, o.state.store.count cls = ailing.store.count cls := by
  intro o
  have he : o.result = .error (.connector (.unavailable "down")) := rfl
  exact ⟨he, unchanged_of_error .replaceOnly (fun _ => bob) .default ailing _ (.inl rfl) he⟩

end Provisioning.Memory
