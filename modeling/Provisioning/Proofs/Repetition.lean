import Mathlib.Data.List.Nodup
import Provisioning.Proofs.Agreement
import Provisioning.Proofs.Protected

/-!
# Requests that are made again

A replacement, a removal of values, and deltas that replace or only delete either give a name fixed
values or keep those of its values that pass a test (`Edit.newValues_of_repeatable`). Such an edit
leaves what it has stored as it is (`Edit.recast_run_run`), although names are spelled anew and
attributes come and go the first time. The way by which a request got through stays open, since a
request that succeeds uses up no failure (`Memory.reaches_of_ok`); so the request can be made again,
with the same answer and the same documents (`repetition_harmless`).
-/
namespace Provisioning

open Keyed (Distinct)

theorem AttributeSet.recast_of_mem {s : AttributeSet} (hs : s.recast .denoted = s) :
    ∀ a ∈ s.toList, a.recast .denoted = a := by
  have hmap : s.toList.map (Attribute.recast .denoted) = s.toList.map id := by
    rw [← recastAttributes_eq_map, List.map_id]
    exact congrArg Keyed.toList hs
  exact List.map_inj_left.1 hmap

theorem Attribute.filled?_of_ne_nil {a : Attribute} (h : a.values ≠ []) : a.filled? = some a := by
  rw [Attribute.filled?, Attribute.isEmpty, List.isEmpty_eq_false_iff.2 h]
  rfl

theorem Attribute.filled?_of_eq_nil {a : Attribute} (h : a.values = []) : a.filled? = none := by
  rw [Attribute.filled?, Attribute.isEmpty, h]
  rfl

theorem Attribute.recast_filled? (time : Instant → Instant) (a : Attribute) :
    a.filled?.map (Attribute.recast time) = (a.recast time).filled? := by
  by_cases h : a.values = []
  · have hrecast : (a.recast time).values = [] := by
      rw [Provisioning.values_recast, h, List.map_nil]
    rw [filled?_of_eq_nil h, filled?_of_eq_nil hrecast]
    rfl
  · have hrecast : (a.recast time).values ≠ [] := by
      rw [Provisioning.values_recast]
      exact fun hnil => h (List.map_eq_nil_iff.1 hnil)
    rw [filled?_of_ne_nil h, filled?_of_ne_nil hrecast]
    rfl

namespace Edit

/-- The attribute of a name of an edit, as it is stored where there were the given values. -/
def stored (e : Edit) (n : Name) (vs : List Value) : Option Attribute :=
  Attribute.filled? ⟨n, (e.newValues n.text vs).map (Value.recast .denoted)⟩

/-- What an edit stores in the place of an attribute. -/
def kept (e : Edit) (a : Attribute) : Option Attribute :=
  (e.revised a).map (Attribute.recast .denoted)

/-- What an edit stores at the end for a name of its own. -/
def appended (e : Edit) (s : AttributeSet) (n : Name) : Option Attribute :=
  if s.contains n.text then none else e.stored n []

variable {e : Edit} {s : AttributeSet}

theorem stored_eq_map (e : Edit) (n : Name) (vs : List Value) :
    e.stored n vs =
      (Attribute.filled? ⟨n, e.newValues n.text vs⟩).map (Attribute.recast .denoted) := by
  rw [Attribute.recast_filled?, stored, Attribute.recast, recastValues_eq_map]

theorem kept_of_named {a : Attribute} {n : Name}
    (h : e.parts.find? (·.is a.name.text) = some n) : e.kept a = e.stored n a.values := by
  rw [kept, revised, h, stored_eq_map]

theorem kept_of_unnamed {a : Attribute} (h : e.parts.find? (·.is a.name.text) = none) :
    e.kept a = some (a.recast .denoted) := by
  rw [kept, revised, h]
  rfl

theorem appended_eq_map (e : Edit) (s : AttributeSet) (n : Name) :
    e.appended s n = (e.added s n).map (Attribute.recast .denoted) := by
  rw [appended, added, stored_eq_map]
  split <;> rfl

/-- What is read after an edit: what it stores in the places of the old attributes, and then what it
stores at the end. -/
theorem toList_recast_run (he : e.Distinct) (hd : Keyed.Distinct s.toList) :
    ((e.run s).recast .denoted).toList =
      s.toList.filterMap e.kept ++ e.parts.filterMap (e.appended s) := by
  show recastAttributes .denoted (e.run s).toList = _
  rw [recastAttributes_eq_map, toList_run he hd, List.map_append, List.map_filterMap,
    List.map_filterMap, funext (appended_eq_map e s)]
  rfl

/-- Where no name repeats, a name of an edit is found as the edit spells it. -/
theorem find?_parts (he : e.Distinct) {n : Name} (hn : n ∈ e.parts) :
    e.parts.find? (·.is n.text) = some n := by
  have hnodup : (e.parts.map fun m => Text.fold m.text).Nodup := by
    cases e <;> (rw [parts, List.map_map]; exact Keyed.nodup_keys_iff.2 he)
  cases hfind : e.parts.find? (·.is n.text) with
  | none => exact absurd (Text.sameName_refl n.text) (List.find?_eq_none.1 hfind n hn)
  | some m =>
    have hsame : Text.fold m.text = Text.fold n.text :=
      (Text.sameName_iff _ _).1 (List.find?_some (p := fun m : Name => m.is n.text) hfind)
    rw [List.inj_on_of_nodup_map hnodup (List.mem_of_find?_eq_some hfind) hn hsame]

theorem kept_mk (he : e.Distinct) {n : Name} (hn : n ∈ e.parts) (vs : List Value) :
    e.kept ⟨n, vs⟩ = e.stored n vs :=
  kept_of_named (a := ⟨n, vs⟩) (find?_parts he hn)

end Edit

/-- Whether a delta replaces, or does nothing but delete. -/
def Delta.Repeatable : Delta → Prop
  | .complex _ ops => ∀ op ∈ ops, op.kind = .delete
  | .replace .. => True

/-- Whether an edit does nothing but replace attributes or take values away. -/
def Edit.Repeatable : Edit → Prop
  | .replace _ => True
  | .change mode _ => mode = .remove
  | .apply ds => ∀ d ∈ ds.toList, d.Repeatable

/-- A deletion keeps what passes a test. -/
theorem ValueOp.run_of_delete {op : ValueOp} (h : op.kind = .delete) :
    ∃ p : Value → Bool, ∀ vs, (ValueOp.run op vs).result = vs.filter p := by
  match op with
  | .delete none =>
    refine ⟨fun _ => false, fun vs => ?_⟩
    rw [ValueOp.run, Traced.result_pure, List.filter_false]
  | .delete (some f) =>
    refine ⟨fun v => !(f.askValue v).result, fun vs => ?_⟩
    rw [ValueOp.run, Traced.result_dropWhere]

/-- So do deletions one after the other. -/
theorem applyOps_of_deletions {ops : List ValueOp} (h : ∀ op ∈ ops, op.kind = .delete) :
    ∃ p : Value → Bool, ∀ vs, applyOps ops vs = vs.filter p := by
  induction ops with
  | nil =>
    refine ⟨fun _ => true, fun vs => ?_⟩
    rw [applyOps_nil, List.filter_true]
  | cons op ops ih =>
    obtain ⟨p, hp⟩ := ValueOp.run_of_delete (h op List.mem_cons_self)
    obtain ⟨q, hq⟩ := ih fun op' hop' => h op' (List.mem_cons_of_mem _ hop')
    refine ⟨fun v => q v && p v, fun vs => ?_⟩
    rw [applyOps_cons, hp, hq, List.filter_filter]

namespace Edit

variable {e : Edit} {s : AttributeSet}

/-- Such an edit gives a name fixed values, or keeps those of its values that pass a test. -/
theorem newValues_of_repeatable (h : e.Repeatable) (n : String) :
    (∃ ws, ∀ vs, e.newValues n vs = ws) ∨
      ∃ p : Value → Bool, ∀ vs, e.newValues n vs = vs.filter p := by
  cases e with
  | replace as => exact .inl ⟨as.values n, fun _ => rfl⟩
  | change mode removed =>
    cases (h : mode = .remove)
    exact .inr ⟨fun v => !(removed.values n).any (· == v), fun _ => rfl⟩
  | apply ds =>
    simp only [newValues]
    cases hd : ds.get? n with
    | none => exact .inr ⟨fun _ => true, fun vs => (List.filter_true vs).symm⟩
    | some d =>
      have hrepeatable : d.Repeatable := h d (Keyed.mem_of_find? hd)
      cases d with
      | replace m ws => exact .inl ⟨ws, fun _ => rfl⟩
      | complex m ops => exact .inr (applyOps_of_deletions hrepeatable)

/-- What such an edit makes of values that are stored is left as it is the next time. -/
theorem newValues_newValues (h : e.Repeatable) (n : String) {vs : List Value}
    (hvs : vs.map (Value.recast .denoted) = vs) :
    (e.newValues n ((e.newValues n vs).map (Value.recast .denoted))).map (Value.recast .denoted) =
      (e.newValues n vs).map (Value.recast .denoted) := by
  rcases newValues_of_repeatable h n with ⟨ws, hws⟩ | ⟨p, hp⟩
  · rw [hws, hws]
  · have hrecast : ∀ v ∈ vs, v.recast .denoted = v :=
      List.map_inj_left.1 (hvs.trans (List.map_id vs).symm)
    have hfilter : (vs.filter p).map (Value.recast .denoted) = vs.filter p :=
      (List.map_congr_left fun v hv => hrecast v (List.mem_filter.1 hv).1).trans (List.map_id _)
    rw [hp, hp, hfilter, List.filter_filter]
    simp only [Bool.and_self, hfilter]

/-- A name that such an edit leaves without values gets none if it had none. -/
theorem newValues_nil (h : e.Repeatable) {n : String} {vs : List Value}
    (hnone : e.newValues n vs = []) : e.newValues n [] = [] := by
  rcases newValues_of_repeatable h n with ⟨ws, hws⟩ | ⟨p, hp⟩
  · rwa [hws] at hnone ⊢
  · rw [hp, List.filter_nil]

/-- The attribute that such an edit stores for a name is kept the next time. -/
theorem stored_bind_kept (h : e.Repeatable) (he : e.Distinct) {n : Name} (hn : n ∈ e.parts)
    {vs : List Value} (hvs : vs.map (Value.recast .denoted) = vs) :
    (e.stored n vs).bind e.kept = e.stored n vs := by
  by_cases hnil : (e.newValues n.text vs).map (Value.recast .denoted) = []
  · rw [stored, Attribute.filled?_of_eq_nil hnil]
    rfl
  · rw [stored, Attribute.filled?_of_ne_nil hnil, Option.bind_some, kept_mk he hn, stored,
      newValues_newValues h n.text hvs, Attribute.filled?_of_ne_nil hnil]

/-- So is what it stores in the place of an attribute. -/
theorem kept_bind_kept (h : e.Repeatable) (he : e.Distinct) {a : Attribute}
    (ha : a.recast .denoted = a) :
    (e.kept a).bind e.kept = e.kept a := by
  cases hfind : e.parts.find? (·.is a.name.text) with
  | none => rw [kept_of_unnamed hfind, ha, Option.bind_some, kept_of_unnamed hfind, ha]
  | some n =>
    have hvalues : a.values.map (Value.recast .denoted) = a.values := by
      rw [← values_recast, ha]
    rw [kept_of_named hfind]
    exact stored_bind_kept h he (List.mem_of_find?_eq_some hfind) hvalues

/-- Nothing is stored at the end the next time: a name that is still missing has no values to be. -/
theorem appended_recast_run (h : e.Repeatable) (he : e.Distinct) (hd : Keyed.Distinct s.toList)
    {n : Name} (hn : n ∈ e.parts) : e.appended ((e.run s).recast .denoted) n = none := by
  have hmentions : e.mentions n.text = true := by
    refine (mentions_iff e _).2 ⟨n.text, ?_, rfl⟩
    rw [names_eq_map_parts]
    exact List.mem_map_of_mem hn
  obtain ⟨-, hcontains⟩ := run_of_mentions he hmentions hd
  rw [appended, AttributeSet.contains_recast]
  by_cases hin : (e.run s).contains n.text = true
  · rw [if_pos hin]
  · have hnone : e.newValues n.text (s.values n.text) = [] :=
      Classical.not_not.1 fun hne => hin (hcontains.2 hne)
    rw [if_neg hin]
    refine Attribute.filled?_of_eq_nil ?_
    show (e.newValues n.text []).map (Value.recast .denoted) = []
    rw [newValues_nil h hnone]
    rfl

/-- Such an edit leaves what it has stored as it is, in every place and spelling. -/
theorem recast_run_run (h : e.Repeatable) (he : e.Distinct) (hd : Keyed.Distinct s.toList)
    (hs : s.recast .denoted = s) :
    (e.run ((e.run s).recast .denoted)).recast .denoted = (e.run s).recast .denoted := by
  have hrecast : ∀ a ∈ s.toList, a.recast .denoted = a := AttributeSet.recast_of_mem hs
  have hrun : Keyed.Distinct ((e.run s).recast .denoted).toList :=
    distinct_recast _ (distinct_overlay hd _)
  have hplaces : s.toList.filterMap (fun a => (e.kept a).bind e.kept) = s.toList.filterMap e.kept :=
    List.filterMap_congr fun a ha => kept_bind_kept h he (hrecast a ha)
  have hends : e.parts.filterMap (fun n => (e.appended s n).bind e.kept) =
      e.parts.filterMap (e.appended s) := by
    refine List.filterMap_congr fun n hn => ?_
    rw [appended]
    split
    · rfl
    · exact stored_bind_kept h he hn rfl
  have hnone : e.parts.filterMap (e.appended ((e.run s).recast .denoted)) = [] :=
    List.filterMap_eq_nil_iff.2 fun n hn => appended_recast_run h he hd hn
  refine congrArg Keyed.mk ?_
  show ((e.run ((e.run s).recast .denoted)).recast .denoted).toList =
    ((e.run s).recast .denoted).toList
  rw [toList_recast_run he hrun, hnone, List.append_nil, toList_recast_run he hd,
    List.filterMap_append, List.filterMap_filterMap, List.filterMap_filterMap, hplaces, hends]

end Edit

namespace Memory

variable {α : Type} {capabilities : Capabilities} {fresh : Nat → Uid} {config : Config}
  {m m' : Memory}

theorem admits_of_enter_bind_ok {op : Operation} {body : Unit → Action Memory α} {a : α}
    (h : ((enter capabilities op >>= body) m).result = .ok a) : Admits capabilities m op := by
  by_contra hno
  obtain ⟨⟨e, he, -⟩, -⟩ := enter_refuses hno
  rw [Action.bind_of_error he] at h
  cases h

/-- A call that succeeds was let in. -/
theorem admits_of_ok {r : Invocation} {reply : Reply}
    (h : ((connector capabilities fresh).perform r m).result = .ok reply) :
    Admits capabilities m r.operation := by
  cases r with
  | changeValues mode cls uid vs o =>
    cases mode <;>
      (rw [Connector.perform, Action.result_map] at h
       obtain ⟨a, ha, -⟩ := of_map_ok h
       exact admits_of_enter_bind_ok ha)
  | _ =>
    rw [Connector.perform, Action.result_map] at h
    obtain ⟨a, ha, -⟩ := of_map_ok h
    exact admits_of_enter_bind_ok ha

/-- Writing back succeeds only if both of its calls were let in. -/
theorem admits_of_writeBack_ok {cls : ObjectClass} {uid uid' : Uid} {names : List String}
    {options : Options} {payload : AttributeSet → AttributeSet}
    (h : (writeBack (connector capabilities fresh) cls uid names options payload m).result =
      .ok uid') :
    Admits capabilities m .search ∧ Admits capabilities m .update := by
  unfold writeBack at h
  rw [Action.result_bind] at h
  obtain ⟨_, -, h⟩ := of_bind_ok h
  rw [Action.state_ofExcept, Action.result_bind] at h
  obtain ⟨base, hfetch, hupdate⟩ := of_bind_ok h
  have harmed := ((fetch_serves capabilities fresh m cls uid names options).answers_of_ok
    hfetch).armed
  have hsearch : Admits capabilities m .search := by
    rw [fetchAttributes, Action.result_bind] at hfetch
    obtain ⟨_, hget, -⟩ := of_bind_ok hfetch
    exact admits_of_enter_bind_ok hget
  obtain ⟨hsupports, hnone⟩ := admits_of_enter_bind_ok hupdate
  exact ⟨hsearch, hsupports, harmed ▸ hnone⟩

theorem admits_of_checked_ok {check : Except Error Unit} {r : Invocation} {reply : Reply}
    (h : ((Action.ofExcept check >>= fun _ => (connector capabilities fresh).perform r) m).result =
      .ok reply) : Admits capabilities m r.operation := by
  rw [Action.result_bind] at h
  obtain ⟨_, -, h⟩ := of_bind_ok h
  exact admits_of_ok h

/-- A change of values that succeeds found its way open. -/
theorem reaches_of_reconcile_ok {mode : UpdateMode} {cls : ObjectClass} {uid uid' : Uid}
    {vs : AttributeSet} {options : Options}
    (h : (reconcile (connector capabilities fresh) cls uid vs mode options m).result = .ok uid') :
    Reaches capabilities config m (.changeValues mode cls uid vs options) := by
  unfold Reaches
  cases hnative : capabilities.supports .updateAttributeValues with
  | true =>
    rw [reconcile_of_native _ cls uid options mode vs hnative] at h
    rw [if_pos rfl]
    cases mode <;> exact admits_of_enter_bind_ok h
  | false =>
    rw [reconcile_of_not_native _ cls uid options mode vs hnative] at h
    rw [if_neg Bool.false_ne_true]
    exact admits_of_writeBack_ok h

/-- So did deltas. -/
theorem reaches_of_deltas_ok {cls : ObjectClass} {uid : Uid} {ds : DeltaSet} {options : Options}
    {reply : Reply}
    (h : ((facade capabilities fresh config).dispatch (.updateDelta cls uid ds options) m).result =
      .ok reply) : Reaches capabilities config m (.updateDelta cls uid ds options) := by
  have hdispatch : (facade capabilities fresh config).dispatch (.updateDelta cls uid ds options) =
      if capabilities.supports .complexUpdateDelta then
        (connector capabilities fresh).perform (.updateDelta cls uid ds options)
      else if config.emulateDeltas then
        Reply.effects <$> reconcileDeltas (connector capabilities fresh) cls uid ds options
      else .fail (.unsupported .complexUpdateDelta) := rfl
  rw [hdispatch] at h
  unfold Reaches
  by_cases hnative : capabilities.supports .complexUpdateDelta = true
  · rw [if_pos hnative] at h ⊢
    exact admits_of_ok h
  · rw [if_neg hnative] at h ⊢
    by_cases hemulate : config.emulateDeltas = true
    · rw [if_pos hemulate, Action.result_map,
        (reconcileDeltas_effects _ cls uid options ds m).1] at h
      obtain ⟨_, h, -⟩ := of_map_ok h
      obtain ⟨_, h, -⟩ := of_map_ok h
      exact ⟨hemulate, admits_of_writeBack_ok h⟩
    · rw [if_neg hemulate] at h
      cases h

/-- A request that succeeds got through to the resource. -/
theorem reaches_of_ok {r : Invocation} {reply : Reply}
    (h : ((facade capabilities fresh config).perform r m).result = .ok reply) :
    Reaches capabilities config m r := by
  by_cases hbarred : r.Barred config
  · obtain ⟨⟨fault, hfault⟩, -⟩ :=
      Facade.perform_of_barred (f := facade capabilities fresh config) hbarred m
    rw [h] at hfault
    cases hfault
  · rw [(Facade.perform_of_not_barred (f := facade capabilities fresh config) hbarred m).1] at h
    cases r with
    | changeValues mode cls uid vs o =>
      rw [Facade.dispatch, Action.result_map] at h
      obtain ⟨_, h, -⟩ := of_map_ok h
      exact reaches_of_reconcile_ok h
    | updateDelta cls uid ds o => exact reaches_of_deltas_ok h
    | create cls as o => exact admits_of_checked_ok h
    | getObject cls uid o => exact admits_of_checked_ok h
    | update cls uid as o => exact admits_of_checked_ok h
    | delete cls uid o => exact admits_of_checked_ok h

/-- Whether a request gets through depends on the armed failures alone. -/
theorem Reaches.of_armed_eq {r : Invocation} (h : Reaches capabilities config m r)
    (harmed : m'.armed = m.armed) : Reaches capabilities config m' r := by
  have hadmits (op : Operation) : Admits capabilities m' op = Admits capabilities m op := by
    rw [Admits, Admits, harmed]
  unfold Reaches at h ⊢
  cases r <;> simpa only [hadmits] using h

end Memory

/-- Where what an edit makes of an object is stored, the same edit answers the same and stores the
same document. -/
theorem Documents.serveEdit_again {docs : Documents} {cls : ObjectClass} {uid : Uid} {e : Edit}
    {s : AttributeSet} (h : e.Repeatable) (he : e.Distinct) (hwell : e.meets .wellFormed = true)
    (hfinite : e.meets .finite = true) (hs : docs.read cls uid = .ok s)
    (hsfinite : s.meets .finite = true) :
    let after := docs.set (Memory.key cls uid) (some (e.run s).toJson)
    after.serveEdit cls uid e = .ok (e.reply uid, after) := by
  intro after
  have hsread := isReadSet_of_read hs
  have hread : after.read cls uid = .ok ((e.run s).recast .denoted) :=
    docs.read_set_run cls uid hwell hfinite hsread.wellFormed hsfinite
  have hsame : (e.run ((e.run s).recast .denoted)).toJson = (e.run s).toJson := by
    rw [← AttributeSet.toJson_recast,
      Edit.recast_run_run h he hsread.distinct hsread.recast_denoted,
      AttributeSet.toJson_recast]
  rw [serveEdit_of_ok hread, hsame, set_eq_self (set_self docs _ _)]

open Memory

/-- A replacement, a removal of values, or deltas that replace or only delete can be requested again
once they have succeeded: the second request gives the same answer and leaves every document as the
first one left it. -/
theorem repetition_harmless (capabilities : Capabilities) (fresh : Nat → Uid) (config : Config)
    (m : Memory) (cls : ObjectClass) (uid : Uid) (options : Options) {e : Edit} {s : AttributeSet}
    {reply : Reply} (h : e.Repeatable) (he : e.Distinct) (hwell : e.meets .wellFormed = true)
    (hfinite : e.meets .finite = true) (hs : m.documents.read cls uid = .ok s)
    (hsfinite : s.meets .finite = true) :
    let o := (facade capabilities fresh config).perform (e.request cls uid options) m
    let again := (facade capabilities fresh config).perform (e.request cls uid options) o.state
    o.result = .ok reply →
      again.result = .ok reply ∧ ∀ key, again.state.store.get? key = o.state.store.get? key := by
  intro o again hok
  have hfirst := (facade_serves capabilities fresh config m
    (e.request cls uid options)).answers_of_ok hok
  have hreaches : Reaches capabilities config o.state (e.request cls uid options) :=
    (reaches_of_ok hok).of_armed_eq hfirst.armed
  have hchecked : config.check (e.request cls uid options) = .ok () := by
    obtain ⟨p, hp, -⟩ := of_map_ok (hfirst.result.symm.trans hok)
    obtain ⟨_, hcheck, -⟩ := of_bind_ok hp
    exact hcheck
  obtain ⟨hreply, hdocuments⟩ := edit_of_ok hs hok
  have hserve : o.state.documents.serveChecked config (fresh o.state.generated)
      (e.request cls uid options) = .ok (e.reply uid, o.state.documents) := by
    rw [Documents.serveChecked, hchecked, hdocuments]
    exact (Documents.serve_request _ _ cls uid options e).trans
      (Documents.serveEdit_again h he hwell hfinite hs hsfinite)
  have hsecond := (facade_serves capabilities fresh config o.state
    (e.request cls uid options)).answers hreaches
  rw [hserve] at hsecond
  refine ⟨hsecond.result.trans (congrArg Except.ok hreply.symm), fun key => ?_⟩
  exact congrFun hsecond.documents key

/-- The only address is taken away by way of a replacement; the second time there is none. -/
theorem withdrawal_repeated :
    let o := (facade .replaceOnly (fun _ => bob) .default).perform
      (.changeValues .remove .account bob noHome .default) (withMail ["bob@home"])
    let again := (facade .replaceOnly (fun _ => bob) .default).perform
      (.changeValues .remove .account bob noHome .default) o.state
    o.state.documents.read .account bob = .ok Keyed.empty ∧ again.result = .ok (.uid bob) ∧
      ∀ key, again.state.store.get? key = o.state.store.get? key := by
  have hdistinct : (Edit.change .remove noHome).Distinct := by
    show Keyed.Distinct noHome.toList
    decide
  have hread : (withMail ["bob@home"]).documents.read .account bob = .ok (mail ["bob@home"]) := rfl
  have hlength :
      (((Edit.change .remove noHome).run (mail ["bob@home"])).recast .denoted).toList.length =
        0 := by
    decide +kernel
  have hempty :
      ((Edit.change .remove noHome).run (mail ["bob@home"])).recast .denoted = Keyed.empty :=
    congrArg Keyed.mk (List.length_eq_zero_iff.1 hlength)
  intro o again
  have hok : o.result = .ok (.uid bob) := rfl
  have hagain := repetition_harmless .replaceOnly (fun _ => bob) .default (withMail ["bob@home"])
    .account bob .default (e := .change .remove noHome) rfl hdistinct rfl rfl hread rfl hok
  refine ⟨?_, hagain⟩
  rw [← hempty]
  exact read_of_edit_ok (e := .change .remove noHome) rfl rfl hread rfl hok

end Provisioning
