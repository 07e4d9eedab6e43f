import Provisioning.Proofs.Edit
import Provisioning.Proofs.Instant

/-!
# What values hold inside

Values differ in what equality does not see, the marks of the objects in them, and in what their
text does not show. Both are taken out of a value by recasting it: the marks go, and the points in
time are replaced by others, at any depth.

A condition is put on every double and every point in time in a value, and on the attributes of
every object embedded in it. Conditions that do not depend on marks, and that hold on when
attributes are put or left out, are kept by deltas and by edits (`meets_runDeltas`,
`Edit.meets_run`). Three are of use: `wellFormed`, that no two attributes of an object share a name;
`finite`, that no double is a NaN or an infinity; and `denotable`, that the text of every point in
time is read as that point.
-/
namespace Provisioning

mutual

/-- A value without the marks in it, and with other points in time. -/
def Value.recast (time : Instant → Instant) : Value → Value
  | .embedded _ o => .embedded none (EmbeddedObject.recast time o)
  | .dateTime t => .dateTime (time t)
  | v => v

def EmbeddedObject.recast (time : Instant → Instant) : EmbeddedObject → EmbeddedObject
  | ⟨c, ⟨as⟩⟩ => ⟨c, ⟨recastAttributes time as⟩⟩

def Attribute.recast (time : Instant → Instant) : Attribute → Attribute
  | ⟨n, vs⟩ => ⟨n, recastValues time vs⟩

def recastValues (time : Instant → Instant) : List Value → List Value
  | [] => []
  | v :: vs => Value.recast time v :: recastValues time vs

def recastAttributes (time : Instant → Instant) : List Attribute → List Attribute
  | [] => []
  | a :: as => Attribute.recast time a :: recastAttributes time as

end

def AttributeSet.recast (time : Instant → Instant) (s : AttributeSet) : AttributeSet :=
  ⟨recastAttributes time s.toList⟩

section

variable (time : Instant → Instant)

theorem recastValues_eq_map (vs : List Value) :
    recastValues time vs = vs.map (Value.recast time) := by
  induction vs with
  | nil => rfl
  | cons v vs ih => rw [recastValues, ih, List.map_cons]

theorem recastAttributes_eq_map (as : List Attribute) :
    recastAttributes time as = as.map (Attribute.recast time) := by
  induction as with
  | nil => rfl
  | cons a as ih => rw [recastAttributes, ih, List.map_cons]

theorem name_recast (a : Attribute) : (a.recast time).name = a.name := by
  cases a
  rfl

theorem values_recast (a : Attribute) :
    (a.recast time).values = a.values.map (Value.recast time) := by
  cases a
  rw [Attribute.recast, recastValues_eq_map]

theorem key_recast (a : Attribute) : HasName.key (a.recast time) = HasName.key a :=
  HasName.key_congr (name_recast time a)

theorem distinct_recast {as : List Attribute} (h : Keyed.Distinct as) :
    Keyed.Distinct (recastAttributes time as) := by
  rw [recastAttributes_eq_map]
  refine List.Pairwise.map _ (fun a b hab => ?_) h
  rw [key_recast, key_recast]
  exact hab

theorem get?_recast (s : AttributeSet) (n : String) :
    (s.recast time).get? n = (s.get? n).map (Attribute.recast time) := by
  rw [Keyed.get?_eq_find?, Keyed.get?_eq_find?, AttributeSet.recast, recastAttributes_eq_map]
  exact Keyed.find?_map (key_recast time) s.toList n

end

mutual

/-- Only the last points in time that a value is given remain. -/
theorem Value.recast_recast (f g : Instant → Instant) (v : Value) :
    (v.recast f).recast g = v.recast (g ∘ f) := by
  match v with
  | .embedded _ ⟨_, ⟨as⟩⟩ =>
    rw [Value.recast, Value.recast, Value.recast, EmbeddedObject.recast, EmbeddedObject.recast,
      EmbeddedObject.recast, recastAttributes_recastAttributes f g as]
  | .dateTime _ => rfl
  | .string _ | .integer _ | .double _ | .boolean _ | .binary _ => rfl

theorem recastValues_recastValues (f g : Instant → Instant) (vs : List Value) :
    recastValues g (recastValues f vs) = recastValues (g ∘ f) vs := by
  match vs with
  | [] => rfl
  | v :: vs =>
    rw [recastValues, recastValues, recastValues, Value.recast_recast f g v,
      recastValues_recastValues f g vs]

theorem recastAttributes_recastAttributes (f g : Instant → Instant) (as : List Attribute) :
    recastAttributes g (recastAttributes f as) = recastAttributes (g ∘ f) as := by
  match as with
  | [] => rfl
  | ⟨n, vs⟩ :: as =>
    rw [recastAttributes, recastAttributes, recastAttributes, Attribute.recast, Attribute.recast,
      Attribute.recast, recastValues_recastValues f g vs, recastAttributes_recastAttributes f g as]

end

/-- A condition on the doubles and the points in time in a value, and on the attributes of the
objects in it. -/
structure Condition where
  double : Binary64 → Bool
  time : Instant → Bool
  attributes : List Attribute → Bool
  denoted : ∀ t, time t = true → time t.denoted = true
  put : ∀ a as, attributes as = true → attributes (Keyed.putList a as) = true
  sublist : ∀ as bs, bs.Sublist as → attributes as = true → attributes bs = true
  recast : ∀ f as, attributes as = true → attributes (recastAttributes f as) = true

mutual

/-- Whether a value meets a condition throughout. -/
def Value.meets (c : Condition) : Value → Bool
  | .double d => c.double d
  | .dateTime t => c.time t
  | .embedded _ o => EmbeddedObject.meets c o
  | _ => true

def EmbeddedObject.meets (c : Condition) : EmbeddedObject → Bool
  | ⟨_, ⟨as⟩⟩ => c.attributes as && attributesMeet c as

def Attribute.meets (c : Condition) : Attribute → Bool
  | ⟨_, vs⟩ => valuesMeet c vs

def valuesMeet (c : Condition) : List Value → Bool
  | [] => true
  | v :: vs => Value.meets c v && valuesMeet c vs

def attributesMeet (c : Condition) : List Attribute → Bool
  | [] => true
  | a :: as => Attribute.meets c a && attributesMeet c as

end

def AttributeSet.meets (c : Condition) (s : AttributeSet) : Bool :=
  c.attributes s.toList && attributesMeet c s.toList

mutual

/-- Whether the values that a delta brings in meet a condition. -/
def Delta.meets (c : Condition) : Delta → Bool
  | .complex _ ops => opsMeet c ops
  | .replace _ vs => valuesMeet c vs

def opMeets (c : Condition) : Op Value Delta → Bool
  | .add vs => valuesMeet c vs
  | .delete _ => true
  | .merge _ ⟨ds⟩ => deltasMeet c ds

def opsMeet (c : Condition) : List (Op Value Delta) → Bool
  | [] => true
  | op :: ops => opMeets c op && opsMeet c ops

def deltasMeet (c : Condition) : List Delta → Bool
  | [] => true
  | d :: ds => Delta.meets c d && deltasMeet c ds

end

/-- Whether the values that an edit brings in meet a condition. -/
def Edit.meets (c : Condition) : Edit → Bool
  | .replace as => attributesMeet c as.toList
  | .change _ vs => attributesMeet c vs.toList
  | .apply ds => deltasMeet c ds.toList

/-- No two attributes of an object have the same name. -/
def Condition.wellFormed : Condition where
  double _ := true
  time _ := true
  attributes as := decide (Keyed.Distinct as)
  denoted _ _ := rfl
  put a _ h := decide_eq_true (Keyed.distinct_putList a (of_decide_eq_true h))
  sublist _ _ hsub h := decide_eq_true ((of_decide_eq_true h).sublist hsub)
  recast f _ h := decide_eq_true (distinct_recast f (of_decide_eq_true h))

/-- No double is a NaN or an infinity. -/
def Condition.finite : Condition where
  double := Binary64.isFinite
  time _ := true
  attributes _ := true
  denoted _ _ := rfl
  put _ _ _ := rfl
  sublist _ _ _ _ := rfl
  recast _ _ _ := rfl

/-- The text of every point in time is read as that point. -/
def Condition.denotable : Condition where
  double _ := true
  time t := decide (Instant.ofText? (t.text "Z") = some t)
  attributes _ := true
  denoted t _ := by
    rw [decide_eq_true_eq, Instant.ofText?_text, Instant.denoted_denoted]
  put _ _ _ := rfl
  sublist _ _ _ _ := rfl
  recast _ _ _ := rfl

section

variable {c : Condition}

theorem valuesMeet_eq_all (vs : List Value) : valuesMeet c vs = vs.all (Value.meets c) := by
  induction vs with
  | nil => rfl
  | cons v vs ih => rw [valuesMeet, ih, List.all_cons]

theorem attributesMeet_eq_all (as : List Attribute) :
    attributesMeet c as = as.all (Attribute.meets c) := by
  induction as with
  | nil => rfl
  | cons a as ih => rw [attributesMeet, ih, List.all_cons]

theorem valuesMeet_iff {vs : List Value} :
    valuesMeet c vs = true ↔ ∀ v ∈ vs, v.meets c = true := by
  rw [valuesMeet_eq_all, List.all_eq_true]

theorem attributesMeet_iff {as : List Attribute} :
    attributesMeet c as = true ↔ ∀ a ∈ as, a.meets c = true := by
  rw [attributesMeet_eq_all, List.all_eq_true]

theorem opsMeet_iff {ops : List ValueOp} :
    opsMeet c ops = true ↔ ∀ op ∈ ops, opMeets c op = true := by
  induction ops with
  | nil => simp [opsMeet]
  | cons op ops ih => rw [opsMeet, Bool.and_eq_true, ih, List.forall_mem_cons]

theorem deltasMeet_iff {ds : List Delta} :
    deltasMeet c ds = true ↔ ∀ d ∈ ds, d.meets c = true := by
  induction ds with
  | nil => simp [deltasMeet]
  | cons d ds ih => rw [deltasMeet, Bool.and_eq_true, ih, List.forall_mem_cons]

theorem AttributeSet.meets_iff {s : AttributeSet} :
    s.meets c = true ↔ c.attributes s.toList = true ∧ ∀ a ∈ s.toList, a.meets c = true := by
  rw [AttributeSet.meets, Bool.and_eq_true, attributesMeet_iff]

theorem Attribute.meets_iff {a : Attribute} :
    a.meets c = true ↔ ∀ v ∈ a.values, v.meets c = true := by
  obtain ⟨n, vs⟩ := a
  rw [Attribute.meets, valuesMeet_iff]

theorem meets_embedded {mark : Option Nat} {o : EmbeddedObject} :
    (Value.embedded mark o).meets c = AttributeSet.meets c o.attributes := by
  obtain ⟨cls, ⟨as⟩⟩ := o
  rw [Value.meets, EmbeddedObject.meets, AttributeSet.meets]

theorem valuesMeet_append {vs ws : List Value} (hv : valuesMeet c vs = true)
    (hw : valuesMeet c ws = true) : valuesMeet c (vs ++ ws) = true := by
  rw [valuesMeet_iff] at *
  intro v hmem
  rcases List.mem_append.1 hmem with h | h
  · exact hv v h
  · exact hw v h

theorem valuesMeet_of_subset {vs ws : List Value} (hv : valuesMeet c vs = true)
    (hsub : ∀ w ∈ ws, w ∈ vs) : valuesMeet c ws = true := by
  rw [valuesMeet_iff] at *
  exact fun w hw => hv w (hsub w hw)

theorem meets_put {s : AttributeSet} {a : Attribute} (hs : s.meets c = true)
    (ha : a.meets c = true) : AttributeSet.meets c (s.put a) = true := by
  rw [AttributeSet.meets_iff] at *
  refine ⟨c.put a _ hs.1, fun b hb => ?_⟩
  rcases Keyed.mem_putList hb with rfl | hb
  · exact ha
  · exact hs.2 b hb

/-- The values that an attribute has are among those of its set. -/
theorem valuesMeet_of_get? {s : AttributeSet} {n : String} (hs : s.meets c = true) :
    valuesMeet c (((s.get? n).map Attribute.values).getD []) = true := by
  rw [AttributeSet.meets_iff] at hs
  cases h : s.get? n with
  | none => rfl
  | some a => exact valuesMeet_iff.2 (Attribute.meets_iff.1 (hs.2 a (Keyed.mem_of_find? h)))

mutual

theorem meets_runOp (op : Op Value Delta) (vs : List Value) (hop : opMeets c op = true)
    (hvs : valuesMeet c vs = true) : valuesMeet c (ValueOp.run op vs).result = true := by
  match op with
  | .add ws =>
    rw [opMeets] at hop
    rw [ValueOp.run]
    exact valuesMeet_append hvs hop
  | .delete none =>
    rw [ValueOp.run]
    rfl
  | .delete (some f) =>
    rw [ValueOp.run, Traced.result_dropWhere]
    exact valuesMeet_of_subset hvs fun w hw => (List.mem_filter.1 hw).1
  | .merge f ⟨ds⟩ =>
    rw [opMeets] at hop
    rw [ValueOp.run, Traced.result_mapList, valuesMeet_iff]
    intro w hw
    obtain ⟨v, hv, rfl⟩ := List.mem_map.1 hw
    have hmeets := valuesMeet_iff.1 hvs v hv
    cases v with
    | embedded mark o =>
      rw [Traced.result_bind]
      split
      · rw [Traced.result_bind, Traced.result_pure, Value.ofObject, meets_embedded]
        rw [meets_embedded] at hmeets
        exact meets_runDeltas ds o.attributes o.attributes hop hmeets hmeets
      · exact hmeets
    | _ => exact hmeets

theorem meets_runOps (ops : List (Op Value Delta)) (vs : List Value) (hops : opsMeet c ops = true)
    (hvs : valuesMeet c vs = true) : valuesMeet c (runOps ops vs).result = true := by
  match ops with
  | [] =>
    rw [runOps]
    exact hvs
  | op :: ops =>
    rw [opsMeet, Bool.and_eq_true] at hops
    rw [runOps, Traced.result_bind]
    exact meets_runOps ops _ hops.2 (meets_runOp op vs hops.1 hvs)

theorem meets_runDelta (d : Delta) (base : Option Attribute) (hd : d.meets c = true)
    (hbase : valuesMeet c ((base.map Attribute.values).getD []) = true) :
    (Delta.run d base).result.meets c = true := by
  match d with
  | .complex n ops =>
    rw [Delta.meets] at hd
    rw [Delta.run, Traced.result_bind, Traced.result_pure, Attribute.meets]
    exact meets_runOps ops _ hd hbase
  | .replace n vs =>
    rw [Delta.meets] at hd
    rw [Delta.run, Traced.result_pure, Attribute.meets]
    exact hd

theorem meets_runDeltas (ds : List Delta) (base result : AttributeSet)
    (hds : deltasMeet c ds = true) (hbase : base.meets c = true) (hresult : result.meets c = true) :
    AttributeSet.meets c (runDeltas ds base result).result = true := by
  match ds with
  | [] =>
    rw [runDeltas]
    exact hresult
  | d :: ds =>
    rw [deltasMeet, Bool.and_eq_true] at hds
    rw [runDeltas, Traced.result_bind]
    exact meets_runDeltas ds base _ hds.2 hbase
      (meets_put hresult (meets_runDelta d _ hds.1 (valuesMeet_of_get? hbase)))

end

theorem meets_layOver {current : AttributeSet} {a : Attribute} (hc : current.meets c = true)
    (ha : a.meets c = true) : AttributeSet.meets c (Memory.layOver current a) = true := by
  unfold Memory.layOver
  split
  · rw [AttributeSet.meets_iff] at *
    have hsub := current.toList.eraseP_sublist (p := (HasName.is · a.name.text))
    exact ⟨c.sublist _ _ hsub hc.1, fun b hb => hc.2 b (hsub.subset hb)⟩
  · exact meets_put hc ha

theorem meets_overlay {current replacements : AttributeSet} (hc : current.meets c = true)
    (hr : ∀ a ∈ replacements.toList, a.meets c = true) :
    AttributeSet.meets c (Memory.overlay current replacements) = true := by
  obtain ⟨as⟩ := replacements
  unfold Memory.overlay
  induction as generalizing current with
  | nil => exact hc
  | cons a as ih =>
    exact ih (meets_layOver hc (hr a List.mem_cons_self))
      fun b hb => hr b (List.mem_cons_of_mem _ hb)

theorem meets_mergeOne {mode : UpdateMode} {base : AttributeSet} {change a : Attribute}
    (hbase : base.meets c = true) (hchange : change.meets c = true)
    (h : mergeOne mode base change = some a) : a.meets c = true := by
  have hvalues := valuesMeet_of_get? hbase (n := change.name.text)
  cases hget : base.get? change.name.text with
  | none =>
    cases mode <;> simp only [mergeOne, hget, Option.some.injEq, reduceCtorEq] at h
    exact h ▸ hchange
  | some b =>
    rw [hget] at hvalues
    rw [Attribute.meets_iff, ← valuesMeet_iff] at hchange
    cases mode <;> simp only [mergeOne, hget, Option.some.injEq] at h <;> subst h <;>
      rw [Attribute.meets]
    · exact valuesMeet_append hvalues hchange
    · exact valuesMeet_of_subset hvalues fun w hw => (List.mem_filter.1 hw).1

namespace Edit

theorem meets_replacements {e : Edit} (he : e.meets c = true) {current : AttributeSet}
    (hc : current.meets c = true) : ∀ a ∈ (e.replacements current).toList, a.meets c = true := by
  intro a ha
  cases e with
  | replace as => exact attributesMeet_iff.1 he a ha
  | change mode vs =>
    obtain ⟨change, hmem, hmerge⟩ := List.mem_filterMap.1 ha
    exact meets_mergeOne hc (attributesMeet_iff.1 he change hmem) hmerge
  | apply ds =>
    have hruns := meets_runDeltas ds.toList current current he hc hc
    exact (AttributeSet.meets_iff.1 hruns).2 a (List.mem_filter.1 ha).1

/-- What an edit makes of attributes that meet a condition meets it too. -/
theorem meets_run {e : Edit} (he : e.meets c = true) {current : AttributeSet}
    (hc : current.meets c = true) : (e.run current).meets c = true :=
  meets_overlay hc (meets_replacements he hc)

end Edit

mutual

/-- What a value is recast to depends only on the points in time that are in it. -/
theorem Value.recast_eq_of_meets {f g : Instant → Instant} (hfg : ∀ t, c.time t = true → f t = g t)
    (v : Value) (h : v.meets c = true) : v.recast f = v.recast g := by
  match v with
  | .embedded mark ⟨cls, ⟨as⟩⟩ =>
    rw [Value.meets, EmbeddedObject.meets, Bool.and_eq_true] at h
    rw [Value.recast, Value.recast, EmbeddedObject.recast, EmbeddedObject.recast,
      recastAttributes_eq_of_meets hfg as h.2]
  | .dateTime t =>
    rw [Value.meets] at h
    rw [Value.recast, Value.recast, hfg t h]
  | .string _ | .integer _ | .double _ | .boolean _ | .binary _ => rfl

theorem recastValues_eq_of_meets {f g : Instant → Instant}
    (hfg : ∀ t, c.time t = true → f t = g t) (vs : List Value) (h : valuesMeet c vs = true) :
    recastValues f vs = recastValues g vs := by
  match vs with
  | [] => rfl
  | v :: vs =>
    rw [valuesMeet, Bool.and_eq_true] at h
    rw [recastValues, recastValues, Value.recast_eq_of_meets hfg v h.1,
      recastValues_eq_of_meets hfg vs h.2]

theorem recastAttributes_eq_of_meets {f g : Instant → Instant}
    (hfg : ∀ t, c.time t = true → f t = g t) (as : List Attribute)
    (h : attributesMeet c as = true) : recastAttributes f as = recastAttributes g as := by
  match as with
  | [] => rfl
  | ⟨n, vs⟩ :: as =>
    rw [attributesMeet, Attribute.meets, Bool.and_eq_true] at h
    rw [recastAttributes, recastAttributes, Attribute.recast, Attribute.recast,
      recastValues_eq_of_meets hfg vs h.1, recastAttributes_eq_of_meets hfg as h.2]

end

theorem denoted_of_denotable {t : Instant} (h : Condition.denotable.time t = true) :
    t.denoted = t := by
  simp only [Condition.denotable, decide_eq_true_eq] at h
  exact Instant.denoted_eq_self h

theorem denotable_of_ofText? {text : String} {t : Instant} (h : Instant.ofText? text = some t) :
    Condition.denotable.time t = true := by
  simp only [Condition.denotable, decide_eq_true_eq]
  rw [Instant.ofText?_text, Instant.denoted_of_ofText? h]

/-- What is denotable is as its text denotes it, apart from marks. -/
theorem Value.recast_denoted {v : Value} (h : v.meets .denotable = true) :
    v.recast .denoted = v.recast id :=
  Value.recast_eq_of_meets (fun _ => denoted_of_denotable) v h

theorem Attribute.recast_denoted {a : Attribute} (h : a.meets .denotable = true) :
    a.recast .denoted = a.recast id := by
  obtain ⟨n, vs⟩ := a
  rw [Attribute.meets] at h
  have hvalues : recastValues .denoted vs = recastValues id vs :=
    recastValues_eq_of_meets (fun _ => denoted_of_denotable) vs h
  rw [Attribute.recast, Attribute.recast, hvalues]

theorem AttributeSet.recast_denoted {s : AttributeSet} (h : s.meets .denotable = true) :
    s.recast .denoted = s.recast id := by
  rw [AttributeSet.meets, Bool.and_eq_true] at h
  exact congrArg Keyed.mk
    (recastAttributes_eq_of_meets (fun _ => denoted_of_denotable) s.toList h.2)

theorem EmbeddedObject.recast_denoted {o : EmbeddedObject}
    (h : AttributeSet.meets .denotable o.attributes = true) :
    o.recast .denoted = o.recast id := by
  obtain ⟨cls, ⟨as⟩⟩ := o
  have hset := AttributeSet.recast_denoted h
  rw [EmbeddedObject.recast, EmbeddedObject.recast]
  exact congrArg (EmbeddedObject.mk cls) hset

mutual

theorem meets_recast_value (v : Value) (h : v.meets c = true) :
    (v.recast .denoted).meets c = true := by
  match v with
  | .embedded mark ⟨cls, ⟨as⟩⟩ =>
    rw [Value.meets, EmbeddedObject.meets, Bool.and_eq_true] at h
    rw [Value.recast, EmbeddedObject.recast, Value.meets, EmbeddedObject.meets, Bool.and_eq_true]
    exact ⟨c.recast _ as h.1, meet_recast_attributes as h.2⟩
  | .dateTime t =>
    rw [Value.meets] at h
    rw [Value.recast, Value.meets]
    exact c.denoted t h
  | .string _ | .integer _ | .double _ | .boolean _ | .binary _ => exact h

theorem meet_recast_values (vs : List Value) (h : valuesMeet c vs = true) :
    valuesMeet c (recastValues .denoted vs) = true := by
  match vs with
  | [] => exact h
  | v :: vs =>
    rw [valuesMeet, Bool.and_eq_true] at h
    rw [recastValues, valuesMeet, Bool.and_eq_true]
    exact ⟨meets_recast_value v h.1, meet_recast_values vs h.2⟩

theorem meet_recast_attributes (as : List Attribute) (h : attributesMeet c as = true) :
    attributesMeet c (recastAttributes .denoted as) = true := by
  match as with
  | [] => exact h
  | ⟨n, vs⟩ :: as =>
    rw [attributesMeet, Attribute.meets, Bool.and_eq_true] at h
    rw [recastAttributes, Attribute.recast, attributesMeet, Attribute.meets, Bool.and_eq_true]
    exact ⟨meet_recast_values vs h.1, meet_recast_attributes as h.2⟩

end

/-- What is read back of a set meets every condition that the set meets. -/
theorem AttributeSet.meets_recast {s : AttributeSet} (h : s.meets c = true) :
    (s.recast .denoted).meets c = true := by
  rw [AttributeSet.meets, Bool.and_eq_true] at *
  exact ⟨c.recast _ _ h.1, meet_recast_attributes _ h.2⟩

end

end Provisioning
