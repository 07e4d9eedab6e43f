import Provisioning.Proofs.Accesses
import Provisioning.Proofs.Rejection

/-!
# Requests for different objects

An action is confined to a key if, as long as no failure is armed, it neither reads nor writes the
document of another key: in two states with the same document under the key it has the same result,
leaves the same document there, and adds the same to the counts of calls. Confined actions compose
(`Confined.bind`), and every request is confined to the key of its object (`confined_perform`), so
requests for different objects can be made in either order (`requests_commute`).
-/
namespace Provisioning

theorem Uid.text_of_of? {text : String} {uid : Uid} (h : Uid.of? text = .ok uid) :
    uid.text = text := by
  obtain ⟨n, hn, rfl⟩ := of_map_ok h
  unfold Name.require at hn
  split at hn
  · rename_i hof
    cases hn
    exact Name.text_of_of? hof
  · cases hn

/-- The key of the object that a request is for; that of a new object is not known if it is given
no uid. -/
def Invocation.key? : Invocation → Option Store.Key
  | .create cls as _ => (Memory.givenUid? as).map (.of cls.text)
  | .getObject cls uid _ | .update cls uid _ _ | .changeValues _ cls uid _ _
  | .updateDelta cls uid _ _ | .delete cls uid _ => some (Memory.key cls uid)

namespace Memory

variable {α β : Type} {key : Store.Key}

/-- Whether no failure is armed. -/
def Unarmed (m : Memory) : Prop := ∀ op, m.armed op = none

/-- Outcomes, in states with the same document under a key, of which only that document tells the
difference. -/
structure SameAt (key : Store.Key) (m n : Memory) (o p : Outcome Memory α) : Prop where
  result : o.result = p.result
  document : o.state.documents key = p.state.documents key
  frame : ∀ k ≠ key, o.state.documents k = m.documents k
  calls : ∃ tally : Operation → Nat, (∀ op, o.state.calls op = m.calls op + tally op) ∧
    ∀ op, p.state.calls op = n.calls op + tally op
  unarmed : Unarmed o.state

/-- Whether an action reads and writes the document of one key only, if no failure is armed. -/
def Confined (key : Store.Key) (act : Action Memory α) : Prop :=
  ∀ m n, m.documents key = n.documents key → Unarmed m → Unarmed n →
    SameAt key m n (act m) (act n)

/-- An action that changes nothing and reads nothing is confined to any key. -/
theorem confined_ofExcept (r : Except Error α) : Confined key (Action.ofExcept r) :=
  fun _ _ hdocument hm _ =>
    ⟨rfl, hdocument, fun _ _ => rfl, ⟨fun _ => 0, fun _ => rfl, fun _ => rfl⟩, hm⟩

theorem confined_pure (a : α) : Confined key (pure a) := confined_ofExcept (.ok a)

theorem confined_ofTraced (t : Traced α) : Confined key (Action.ofTraced t) :=
  fun _ _ hdocument hm _ =>
    ⟨rfl, hdocument, fun _ _ => rfl, ⟨fun _ => 0, fun _ => rfl, fun _ => rfl⟩, hm⟩

theorem Confined.bind {act : Action Memory α} {next : α → Action Memory β}
    (hact : Confined key act) (hnext : ∀ a, Confined key (next a)) :
    Confined key (act >>= next) := by
  intro m n hdocument hm hn
  have hfirst := hact m n hdocument hm hn
  have hn' := (hact n m hdocument.symm hn hm).unarmed
  obtain ⟨tally, hmcalls, hncalls⟩ := hfirst.calls
  cases hresult : (act m).result with
  | error e =>
    rw [Action.bind_of_error hresult, Action.bind_of_error (hfirst.result.symm.trans hresult)]
    exact ⟨rfl, hfirst.document, hfirst.frame, hfirst.calls, hfirst.unarmed⟩
  | ok a =>
    rw [Action.bind_of_ok hresult, Action.bind_of_ok (hfirst.result.symm.trans hresult)]
    have hsecond := hnext a _ _ hfirst.document hfirst.unarmed hn'
    obtain ⟨tally', hmcalls', hncalls'⟩ := hsecond.calls
    refine ⟨hsecond.result, hsecond.document, fun k hk => ?_,
      ⟨fun op => tally op + tally' op, ?_, ?_⟩, hsecond.unarmed⟩
    · exact (hsecond.frame k hk).trans (hfirst.frame k hk)
    · intro op
      rw [hmcalls', hmcalls, Nat.add_assoc]
    · intro op
      rw [hncalls', hncalls, Nat.add_assoc]

theorem Confined.map {act : Action Memory α} (hact : Confined key act) (f : α → β) :
    Confined key (f <$> act) := by
  rw [map_eq_pure_bind]
  exact hact.bind fun a => confined_pure (f a)

/-- Events do not matter. -/
theorem Confined.of_sameEffects {act act' : Action Memory α}
    (hact : Confined key act') (h : Action.SameEffects act act') : Confined key act := by
  intro m n hdocument hm hn
  have hsame := hact m n hdocument hm hn
  refine ⟨?_, ?_, ?_, ?_, ?_⟩
  · rw [(h m).1, (h n).1, hsame.result]
  · rw [(h m).2, (h n).2, hsame.document]
  · rw [(h m).2]
    exact hsame.frame
  · rw [(h m).2, (h n).2]
    exact hsame.calls
  · rw [(h m).2]
    exact hsame.unarmed

theorem enter_of_unarmed (capabilities : Capabilities) (op : Operation) {m : Memory}
    (hm : Unarmed m) : (enter capabilities op m).result = capabilities.require op ∧
      (enter capabilities op m).state = count op m := by
  have hcount : (count op m).armed op = none := hm op
  simp only [enter, Action.result_bind, Action.state_bind, Action.modify, Action.log, Action.get,
    Action.result_ofExcept, Action.state_ofExcept]
  simp only [bind, Except.bind]
  cases capabilities.require op with
  | error e => exact ⟨rfl, rfl⟩
  | ok u =>
    simp only [hcount]
    exact ⟨rfl, rfl⟩

theorem calls_count (op o : Operation) (m : Memory) :
    (count op m).calls o = m.calls o + if o = op then 1 else 0 := by
  show (if o = op then m.calls o + 1 else m.calls o) = _
  split <;> rfl

/-- A call is counted, whatever the documents are. -/
theorem confined_enter (capabilities : Capabilities) (op : Operation) :
    Confined key (enter capabilities op) := by
  intro m n hdocument hm hn
  obtain ⟨hresult, hstate⟩ := enter_of_unarmed capabilities op hm
  obtain ⟨hresult', hstate'⟩ := enter_of_unarmed capabilities op hn
  refine ⟨hresult.trans hresult'.symm, ?_, ?_, ⟨fun o => if o = op then 1 else 0, ?_, ?_⟩, ?_⟩
  · rw [hstate, hstate']
    exact hdocument
  · rw [hstate]
    exact fun _ _ => rfl
  · intro o
    rw [hstate, calls_count]
  · intro o
    rw [hstate', calls_count]
  · rw [hstate]
    exact hm

/-- An access to the store that answers by the document under the key, and sets that document or
leaves it as it is. -/
theorem confined_onStore {act : Action Store α} (answer : Option Json → Except Error α)
    (left : Option Json → Option Json)
    (hresult : ∀ s, (act s).result = answer (s.get? key))
    (hstate : ∀ s, (act s).state.get? = Documents.set s.get? key (left (s.get? key))) :
    Confined key (onStore act) := by
  intro m n hdocument hm hn
  have hdocuments (m : Memory) : (onStore act m).state.documents =
      m.documents.set key (left (m.documents key)) := hstate m.store
  refine ⟨?_, ?_, fun k hk => ?_, ⟨fun _ => 0, fun _ => rfl, fun _ => rfl⟩, hm⟩
  · show (act m.store).result = (act n.store).result
    rw [hresult, hresult]
    exact congrArg answer hdocument
  · rw [hdocuments, hdocuments, Documents.set_self, Documents.set_self, hdocument]
  · rw [hdocuments, Documents.set_of_ne _ _ hk]

theorem confined_getting : Confined key (onStore (Store.getting key)) :=
  confined_onStore .ok id (fun _ => rfl)
    fun _ => (Documents.set_eq_self rfl).symm

theorem confined_putting (document : Json) :
    Confined key (onStore (Store.putting key document)) :=
  confined_onStore (fun _ => .ok ()) (fun _ => some document) (fun _ => rfl)
    fun s => Store.get?_put_eq_set s key document

theorem confined_inserting (document : Json) :
    Confined key (onStore (Store.inserting key document)) := by
  refine confined_onStore
    (fun d => if d.isSome then .error (.storage (.alreadyExists key)) else .ok ())
    (fun d => d.or (some document)) (fun s => (Store.inserting_eq s key document).1)
    fun s => ?_
  rw [(Store.inserting_eq s key document).2]
  cases hd : s.get? key with
  | none => exact Store.get?_put_eq_set s key document
  | some taken => exact (Documents.set_eq_self hd).symm

theorem confined_deleting : Confined key (onStore (Store.deleting key)) :=
  confined_onStore (fun d => .ok d.isSome) (fun _ => none) (fun _ => rfl)
    fun s => Store.get?_delete_eq_set s key

section

variable (capabilities : Capabilities) (fresh : Nat → Uid) (cls : ObjectClass) (uid : Uid)

theorem confined_load : Confined (Memory.key cls uid) (load cls uid) := by
  refine confined_getting.bind fun found => ?_
  cases found with
  | none => exact confined_pure none
  | some document => exact (confined_ofExcept _).bind fun s => confined_pure (some s)

theorem confined_loadExisting : Confined (Memory.key cls uid) (loadExisting cls uid) := by
  refine (confined_load cls uid).bind fun found => ?_
  cases found with
  | none => exact confined_ofExcept _
  | some s => exact confined_pure s

theorem confined_replaceValues (current replacements : AttributeSet) :
    Confined (Memory.key cls uid) (replaceValues cls uid current replacements) :=
  (confined_putting _).bind fun _ => confined_pure uid

theorem confined_changeValues (mode : UpdateMode) (values : AttributeSet) :
    Confined (Memory.key cls uid) (changeValues capabilities mode cls uid values) :=
  (confined_enter capabilities _).bind fun _ => (confined_loadExisting cls uid).bind fun current =>
    confined_replaceValues cls uid current _

theorem confined_getObject (options : Options) : Confined (Memory.key cls uid)
    ((connector capabilities fresh).getObject cls uid options) := by
  refine (confined_enter capabilities _).bind fun _ => (confined_load cls uid).bind fun found => ?_
  cases found with
  | none => exact confined_pure none
  | some s => exact confined_pure _

theorem confined_update (attributes : AttributeSet) (options : Options) :
    Confined (Memory.key cls uid)
      ((connector capabilities fresh).update cls uid attributes options) :=
  (confined_enter capabilities _).bind fun _ => (confined_loadExisting cls uid).bind fun current =>
    confined_replaceValues cls uid current attributes

theorem confined_updateDelta (deltas : DeltaSet) (options : Options) :
    Confined (Memory.key cls uid)
      ((connector capabilities fresh).updateDelta cls uid deltas options) :=
  (confined_enter capabilities _).bind fun _ => (confined_loadExisting cls uid).bind fun current =>
    (confined_ofTraced _).bind fun _ => (confined_replaceValues cls uid current _).bind fun _ =>
      confined_pure _

theorem confined_delete (options : Options) :
    Confined (Memory.key cls uid) ((connector capabilities fresh).delete cls uid options) := by
  refine (confined_enter capabilities _).bind fun _ => confined_deleting.bind fun found => ?_
  cases found with
  | false => exact confined_ofExcept _
  | true => exact confined_pure ()

/-- A new object that is given its uid is made under that uid, if it is one. -/
theorem confined_create {attributes : AttributeSet} {text : String}
    (h : givenUid? attributes = some text) (options : Options) :
    Confined (.of cls.text text)
      ((connector capabilities fresh).create cls attributes options) := by
  have hnew : newUid fresh attributes = .ofExcept (Uid.of? text) := by
    unfold newUid
    rw [h]
  refine (confined_enter capabilities _).bind fun _ => ?_
  rw [hnew]
  cases huid : Uid.of? text with
  | error e => exact confined_ofExcept (.error e)
  | ok uid =>
    rw [Action.ofExcept_ok_bind, ← Uid.text_of_of? huid]
    exact (confined_inserting _).bind fun _ => confined_pure uid

theorem confined_fetchAttributes (names : List String) (options : Options) :
    Confined (Memory.key cls uid)
      (fetchAttributes (connector capabilities fresh) cls uid names options) := by
  refine (confined_getObject capabilities fresh cls uid _).bind fun found => ?_
  cases found with
  | none => exact confined_ofExcept _
  | some record => exact confined_pure _

theorem confined_reconcile (changes : AttributeSet) (mode : UpdateMode) (options : Options) :
    Confined (Memory.key cls uid)
      (reconcile (connector capabilities fresh) cls uid changes mode options) := by
  refine (confined_ofExcept _).bind fun path => ?_
  cases path with
  | native => cases mode <;> exact confined_changeValues capabilities cls uid _ changes
  | fetchAndMerge =>
    exact (confined_fetchAttributes capabilities fresh cls uid _ options).bind fun _ =>
      confined_update capabilities fresh cls uid _ options

theorem confined_reconcileDeltas (deltas : DeltaSet) (options : Options) :
    Confined (Memory.key cls uid)
      (reconcileDeltas (connector capabilities fresh) cls uid deltas options) :=
  (confined_ofExcept _).bind fun _ =>
    (confined_fetchAttributes capabilities fresh cls uid _ options).bind fun _ =>
      (confined_ofTraced _).bind fun _ =>
        (confined_update capabilities fresh cls uid _ options).bind fun _ => confined_pure _

end

variable (capabilities : Capabilities) (fresh : Nat → Uid) (config : Config)

/-- A call of the resource is confined to the key of its object. -/
theorem confined_call {r : Invocation} (h : r.key? = some key) :
    Confined key ((connector capabilities fresh).perform r) := by
  cases r with
  | create cls as o =>
    obtain ⟨text, htext, rfl⟩ := Option.map_eq_some_iff.1 h
    exact (confined_create capabilities fresh cls htext o).map _
  | getObject cls uid o =>
    cases h
    exact (confined_getObject capabilities fresh cls uid o).map _
  | update cls uid as o =>
    cases h
    exact (confined_update capabilities fresh cls uid as o).map _
  | changeValues mode cls uid vs o =>
    cases h
    cases mode <;> exact (confined_changeValues capabilities cls uid _ vs).map _
  | updateDelta cls uid ds o =>
    cases h
    exact (confined_updateDelta capabilities fresh cls uid ds o).map _
  | delete cls uid o =>
    cases h
    exact (confined_delete capabilities fresh cls uid o).map _

/-- What follows the checks of a request is confined to the key of its object, on either path. -/
theorem confined_dispatch {r : Invocation} (h : r.key? = some key) :
    Confined key ((facade capabilities fresh config).dispatch r) := by
  cases r with
  | changeValues mode cls uid vs o =>
    cases h
    exact (confined_reconcile capabilities fresh cls uid vs mode o).map _
  | updateDelta cls uid ds o =>
    rw [Facade.dispatch]
    split
    · exact confined_call capabilities fresh h
    · split
      · cases h
        exact (confined_reconcileDeltas capabilities fresh cls uid ds o).map _
      · exact confined_ofExcept _
  | _ => exact (confined_ofExcept _).bind fun _ => confined_call capabilities fresh h

/-- Through the facade, a request is confined to the key of its object. -/
theorem confined_perform {r : Invocation} (h : r.key? = some key) :
    Confined key ((facade capabilities fresh config).perform r) := by
  have hchecked : Confined key (Action.ofExcept (config.check r) >>= fun _ =>
      (facade capabilities fresh config).dispatch r) :=
    (confined_ofExcept _).bind fun _ => confined_dispatch capabilities fresh config h
  exact hchecked.of_sameEffects ((facade capabilities fresh config).perform_effects r)

/-- Where no failure is armed, requests for different objects can be made in either order. Each
leaves every document but that of its own object as it is, and has the same result before and after
the other; both orders lead to the same documents and the same counts of calls. -/
theorem requests_commute {m : Memory} (hm : ∀ op, m.armed op = none) {r r' : Invocation}
    {k k' : Store.Key} (hr : r.key? = some k) (hr' : r'.key? = some k') (hne : k ≠ k') :
    let f := facade capabilities fresh config
    let first := f.perform r m
    let second' := f.perform r' first.state
    let first' := f.perform r' m
    let second := f.perform r first'.state
    (∀ key ≠ k, first.state.store.get? key = m.store.get? key ∧
      second.state.store.get? key = first'.state.store.get? key) ∧
    (∀ key ≠ k', first'.state.store.get? key = m.store.get? key ∧
      second'.state.store.get? key = first.state.store.get? key) ∧
    first.result = second.result ∧ first'.result = second'.result ∧
    (∀ key, second'.state.store.get? key = second.state.store.get? key) ∧
    ∀ op, second'.state.calls op = second.state.calls op := by
  intro f first second' first' second
  have hconfined : Confined k (f.perform r) := confined_perform capabilities fresh config hr
  have hconfined' : Confined k' (f.perform r') := confined_perform capabilities fresh config hr'
  have hunarmed : Unarmed first.state := (hconfined m m rfl hm hm).unarmed
  have hunarmed' : Unarmed first'.state := (hconfined' m m rfl hm hm).unarmed
  have hk : m.documents k = first'.state.documents k :=
    ((hconfined' m m rfl hm hm).frame k hne).symm
  have hk' : m.documents k' = first.state.documents k' :=
    ((hconfined m m rfl hm hm).frame k' hne.symm).symm
  -- each request is compared with itself after the other one
  have hsame : SameAt k m first'.state first second := hconfined m _ hk hm hunarmed'
  have hsame' : SameAt k' m first.state first' second' := hconfined' m _ hk' hm hunarmed
  have hframe := (hconfined _ m hk.symm hunarmed' hm).frame
  have hframe' := (hconfined' _ m hk'.symm hunarmed hm).frame
  refine ⟨fun key hkey => ⟨hsame.frame key hkey, hframe key hkey⟩,
    fun key hkey => ⟨hsame'.frame key hkey, hframe' key hkey⟩, hsame.result, hsame'.result,
    fun key => ?_, fun op => ?_⟩
  · show second'.state.documents key = second.state.documents key
    by_cases hkey : key = k
    · rw [hkey, hframe' k hne, hsame.document]
    · rw [hframe key hkey]
      by_cases hkey' : key = k'
      · rw [hkey', hsame'.document]
      · rw [hframe' key hkey', hsame.frame key hkey, hsame'.frame key hkey']
  · obtain ⟨tally, hfirst, hsecond⟩ := hsame.calls
    obtain ⟨tally', hfirst', hsecond'⟩ := hsame'.calls
    rw [hsecond', hfirst, hsecond, hfirst', Nat.add_right_comm]

/-- Bob gets a second address, by way of a replacement, before or after Alice gets her account. -/
theorem bob_and_alice_commute :
    let f := facade .replaceOnly (fun _ => bob) .default
    let m := withMail ["bob@work"]
    let extend := Invocation.changeValues .add .account bob (mail ["bob@home"]) .default
    let alice : Attribute := ⟨⟨"__name__", by decide⟩, [.string "alice"]⟩
    let make := Invocation.create ⟨⟨"__account__", by decide⟩⟩ ⟨[alice]⟩ .default
    (f.perform extend m).result = (f.perform extend (f.perform make m).state).result ∧
      (f.perform make m).result = (f.perform make (f.perform extend m).state).result ∧
      ∀ op, (f.perform make (f.perform extend m).state).state.calls op =
        (f.perform extend (f.perform make m).state).state.calls op := by
  intro f m extend alice make
  have hkey : extend.key? = some ⟨"__account__", "bob"⟩ := by decide
  have hkey' : make.key? = some ⟨"__account__", "alice"⟩ := by decide
  obtain ⟨-, -, hresult, hresult', -, hcalls⟩ := requests_commute .replaceOnly (fun _ => bob)
    .default (m := m) (fun _ => rfl) hkey hkey' (by decide)
  exact ⟨hresult, hresult', hcalls⟩

end Memory

end Provisioning
