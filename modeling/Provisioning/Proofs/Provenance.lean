import Mathlib.Order.Fin.Basic
import Provisioning.Proofs.Congruence

/-!
# Where values come from

The values that steps make of a list come, in order, from those of the list and those that the steps
add (`applyOps_provenance`). A value that enters faces the steps after it: it is missing from the
result if one of them deletes it, is the same object as long as none of them merges deltas into it,
and keeps its class if one does. Inside an object into which deltas are merged the same holds of
the values of every attribute that they change step by step, and all that they do not name stays.
-/
namespace Provisioning

/-- The results of a partial map come, in order, from the places at which it has one. -/
theorem exists_places {α β : Type} (f : α → Option β) (as : List α) (bs : List β)
    (h : as.filterMap f = bs) :
    ∃ place : Fin bs.length → Fin as.length, StrictMono place ∧
      (∀ i, f (as.get (place i)) = some (bs.get i)) ∧
      ∀ j, (∀ i, place i ≠ j) ↔ f (as.get j) = none := by
  induction as generalizing bs with
  | nil =>
    subst h
    exact ⟨fun i => i, strictMono_id, fun i => i.elim0, fun j => j.elim0⟩
  | cons a as ih =>
    cases ha : f a with
    | none =>
      rw [List.filterMap_cons_none ha] at h
      obtain ⟨place, hmono, hplace, hmissing⟩ := ih bs h
      refine ⟨fun i => (place i).succ, (Fin.strictMono_succ).comp hmono, hplace, fun j => ?_⟩
      cases j using Fin.cases with
      | zero => exact iff_of_true (fun i => Fin.succ_ne_zero _) ha
      | succ j =>
        simp only [ne_eq, Fin.succ_inj]
        exact hmissing j
    | some b =>
      rw [List.filterMap_cons_some ha] at h
      subst h
      obtain ⟨place, hmono, hplace, hmissing⟩ := ih _ rfl
      refine ⟨Fin.cases 0 fun i => (place i).succ, ?_, fun i => ?_, fun j => ?_⟩
      · intro i j hij
        cases j using Fin.cases with
        | zero => exact absurd hij (Fin.not_lt_zero i)
        | succ j =>
          cases i using Fin.cases with
          | zero => exact Fin.succ_pos _
          | succ i => exact Fin.succ_lt_succ_iff.2 (hmono (Fin.succ_lt_succ_iff.1 hij))
      · cases i using Fin.cases with
        | zero => exact ha
        | succ i => exact hplace i
      · cases j using Fin.cases with
        | zero =>
          refine iff_of_false (fun hne => hne 0 rfl) ?_
          rw [List.get_cons_zero, ha]
          exact Option.some_ne_none b
        | succ j =>
          refine ⟨fun hne => (hmissing j).1 fun i hi => hne i.succ (congrArg Fin.succ hi), ?_⟩
          intro hnone i
          cases i using Fin.cases with
          | zero => exact (Fin.succ_ne_zero j).symm
          | succ i => exact fun hi => (hmissing j).2 hnone i (Fin.succ_inj.1 hi)

namespace ValueOp

/-- Whether a step deletes a value. -/
def deletes : ValueOp → Value → Bool
  | .delete none, _ => true
  | .delete (some f), v => f.accepts v
  | _, _ => false

/-- Whether a step merges deltas into a value. -/
def merges : ValueOp → Value → Bool
  | .merge f _, v => v.isEmbedded && f.accepts v
  | _, _ => false

/-- The form that a step gives to a value that it does not delete. -/
def reshape : ValueOp → Value → Value
  | .merge f ds, v => mergedValue f ds v
  | _, v => v

/-- The values that a step adds. -/
def added (op : ValueOp) : List Value := op.elements?.getD []

/-- What a step leaves of a value. -/
def keep (op : ValueOp) (v : Value) : Option Value :=
  if op.deletes v then none else some (op.reshape v)

theorem result_run (op : ValueOp) (vs : List Value) :
    (ValueOp.run op vs).result = vs.filterMap op.keep ++ op.added := by
  match op with
  | .add ws =>
    have hkeep : vs.filterMap (ValueOp.keep (.add ws)) = vs := List.filterMap_some
    rw [ValueOp.run, hkeep]
    rfl
  | .delete none =>
    have hkeep : vs.filterMap (ValueOp.keep (.delete none)) = [] := List.filterMap_none vs
    rw [ValueOp.run, hkeep]
    rfl
  | .delete (some f) =>
    have hkeep : ValueOp.keep (.delete (some f)) = Option.guard fun v => !f.accepts v := by
      funext v
      cases hv : f.accepts v <;> simp [keep, deletes, reshape, Option.guard, hv]
    rw [ValueOp.run, Traced.result_dropWhere, hkeep, List.filterMap_eq_filter]
    exact (List.append_nil _).symm
  | .merge f ds =>
    have hkeep : vs.filterMap (ValueOp.keep (.merge f ds)) = vs.map (mergedValue f ds) :=
      congrFun List.filterMap_eq_map vs
    rw [result_run_mergeValues, hkeep]
    exact (List.append_nil _).symm

theorem reshape_of_not_merges {op : ValueOp} {v : Value} (h : op.merges v = false) :
    op.reshape v = v := by
  cases op with
  | merge f ds =>
    cases v with
    | embedded mark o => exact if_neg (Bool.eq_false_iff.1 h)
    | _ => rfl
  | _ => rfl

theorem reshape_of_merges {op : ValueOp} {v : Value} (h : op.merges v = true) :
    ∃ f mark c s, ∃ ds : DeltaSet, op = .merge f ds ∧ v = .embedded mark ⟨c, s⟩ ∧
      op.reshape v = .ofObject ⟨c, ds.applyTo s⟩ := by
  cases op with
  | merge f ds =>
    cases v with
    | embedded mark o =>
      obtain ⟨c, s⟩ := o
      exact ⟨f, mark, c, s, ds, rfl, rfl, if_pos h⟩
    | _ => cases h
  | _ => cases h

theorem merges_eq_false_of_scalar (op : ValueOp) {v : Value} (h : v.isEmbedded = false) :
    op.merges v = false := by
  cases op with
  | merge f ds => rw [merges, h, Bool.false_and]
  | _ => rfl

end ValueOp

/-- The attribute of a name inside an object. -/
def Value.attribute? (n : String) (v : Value) : Option Attribute :=
  v.object?.bind fun o => o.attributes.get? n

/-- A value that enters a list, and the steps that come after. -/
structure Entrant where
  value : Value
  later : List ValueOp

namespace Entrant

/-- The form of an entrant when the `k`th step comes, if it is not deleted before. -/
def form (e : Entrant) (k : Nat) : Value :=
  (e.later.take k).foldl (fun v op => ValueOp.reshape op v) e.value

/-- Whether some step matches an entrant in the form that it has then. -/
def Matched (p : ValueOp → Value → Bool) (e : Entrant) : Prop :=
  ∃ k op, e.later[k]? = some op ∧ p op (e.form k) = true

def Deleted (e : Entrant) : Prop := e.Matched ValueOp.deletes

def Merged (e : Entrant) : Prop := e.Matched ValueOp.merges

/-- Whether the `k`th step merges the given deltas into an entrant. -/
def MergedAt (e : Entrant) (k : Nat) (f : Filter Value) (ds : DeltaSet) : Prop :=
  e.later[k]? = some (.merge f ds) ∧ ValueOp.merges (.merge f ds) (e.form k) = true

/-- What all the steps together leave of an entrant. -/
def fate : List ValueOp → Value → Option Value
  | [], v => some v
  | op :: ops, v => (op.keep v).bind (fate ops)

variable {op : ValueOp} {ops : List ValueOp} {e : Entrant} {v w : Value}

theorem not_matched_nil (p : ValueOp → Value → Bool) : ¬ Matched p ⟨v, []⟩ := by
  rintro ⟨k, op, hop, -⟩
  cases hop

theorem matched_cons (p : ValueOp → Value → Bool) :
    Matched p ⟨v, op :: ops⟩ ↔ p op v = true ∨ Matched p ⟨op.reshape v, ops⟩ := by
  constructor
  · rintro ⟨k, op', hop, hp⟩
    cases k with
    | zero =>
      cases hop
      exact .inl hp
    | succ k => exact .inr ⟨k, op', hop, hp⟩
  · rintro (hp | ⟨k, op', hop, hp⟩)
    · exact ⟨0, op, rfl, hp⟩
    · exact ⟨k + 1, op', hop, hp⟩

theorem form_succ {k : Nat} (h : e.later[k]? = some op) :
    e.form (k + 1) = op.reshape (e.form k) := by
  rw [form, List.take_add_one, h, Option.toList_some, List.foldl_append]
  rfl

theorem fate_eq_none_iff : fate ops v = none ↔ Deleted ⟨v, ops⟩ := by
  induction ops generalizing v with
  | nil => exact iff_of_false (Option.some_ne_none v) (not_matched_nil _)
  | cons op ops ih =>
    rw [Deleted, matched_cons, fate, ValueOp.keep]
    cases op.deletes v with
    | true => exact iff_of_true rfl (.inl rfl)
    | false => simpa [Deleted] using ih

theorem eq_form_of_fate (h : fate ops v = some w) : w = form ⟨v, ops⟩ ops.length := by
  induction ops generalizing v with
  | nil => exact (Option.some.inj h).symm
  | cons op ops ih =>
    rw [fate, ValueOp.keep] at h
    split at h
    · cases h
    · exact ih h

/-- An entrant keeps its form as long as nothing is merged into it. -/
theorem form_of_not_merged (h : ¬ e.Merged) (k : Nat) : e.form k = e.value := by
  obtain ⟨v, ops⟩ := e
  induction ops generalizing v k with
  | nil => cases k <;> rfl
  | cons op ops ih =>
    rw [Merged, matched_cons, not_or] at h
    cases k with
    | zero => rfl
    | succ k =>
      have hsame := ValueOp.reshape_of_not_merges (Bool.eq_false_iff.2 h.1)
      exact (ih k _ h.2).trans hsame

theorem not_merged_of_scalar (h : e.value.isEmbedded = false) : ¬ e.Merged := by
  obtain ⟨v, ops⟩ := e
  induction ops generalizing v with
  | nil => exact not_matched_nil _
  | cons op ops ih =>
    have hmerges := op.merges_eq_false_of_scalar h
    rw [Merged, matched_cons, hmerges, ValueOp.reshape_of_not_merges hmerges]
    exact fun hrest => hrest.elim Bool.false_ne_true (ih v h)

/-- An object without a mark stays one of its class. -/
theorem form_ofObject (c : ObjectClass) (s : AttributeSet) (ops : List ValueOp) (k : Nat) :
    ∃ t, form ⟨.ofObject ⟨c, s⟩, ops⟩ k = .ofObject ⟨c, t⟩ := by
  induction ops generalizing s k with
  | nil => exact ⟨s, by cases k <;> rfl⟩
  | cons op ops ih =>
    cases k with
    | zero => exact ⟨s, rfl⟩
    | succ k =>
      have hform : form ⟨.ofObject ⟨c, s⟩, op :: ops⟩ (k + 1) =
          form ⟨op.reshape (.ofObject ⟨c, s⟩), ops⟩ k := rfl
      cases h : op.merges (.ofObject ⟨c, s⟩) with
      | false =>
        rw [hform, ValueOp.reshape_of_not_merges h]
        exact ih s k
      | true =>
        obtain ⟨f, mark, c', s', ds, -, hobject, hreshape⟩ := ValueOp.reshape_of_merges h
        cases hobject
        rw [hform, hreshape]
        exact ih _ k

/-- An entrant into which something is merged ends as an object without a mark, of the same
class. -/
theorem form_of_merged (h : e.Merged) : ∃ mark c s t, e.value = .embedded mark ⟨c, s⟩ ∧
    e.form e.later.length = .ofObject ⟨c, t⟩ := by
  obtain ⟨v, ops⟩ := e
  induction ops generalizing v with
  | nil => exact absurd h (not_matched_nil _)
  | cons op ops ih =>
    have hform : form ⟨v, op :: ops⟩ (ops.length + 1) = form ⟨op.reshape v, ops⟩ ops.length := rfl
    cases hmerges : op.merges v with
    | false =>
      have hsame := ValueOp.reshape_of_not_merges hmerges
      rw [Merged, matched_cons, hmerges, hsame] at h
      obtain ⟨mark, c, s, t, hvalue, hrest⟩ := ih v (h.resolve_left Bool.false_ne_true)
      exact ⟨mark, c, s, t, hvalue, hform.trans (hsame.symm ▸ hrest)⟩
    | true =>
      obtain ⟨f, mark, c, s, ds, -, rfl, hreshape⟩ := ValueOp.reshape_of_merges hmerges
      obtain ⟨t, ht⟩ := form_ofObject c (ds.applyTo s) ops ops.length
      exact ⟨mark, c, s, t, rfl, hform.trans (hreshape ▸ ht)⟩

end Entrant

/-- What the steps add, with the steps that come after. -/
def additions : List ValueOp → List Entrant
  | [] => []
  | op :: ops => op.added.map (⟨·, ops⟩) ++ additions ops

/-- All that enters when steps run over a list: first what is in the list, and then what the steps
add, in their order. -/
def entrants (ops : List ValueOp) (base : List Value) : List Entrant :=
  base.map (⟨·, ops⟩) ++ additions ops

mutual

/-- Values that come from those of a list and those that steps add, in their order. Missing are
those that a step deletes. -/
inductive Provenance : List ValueOp → List Value → List Value → Prop where
  | intro {ops : List ValueOp} {base result : List Value}
    (place : Fin result.length → Fin (entrants ops base).length)
    (increasing : StrictMono place)
    (missing : ∀ j, (∀ i, place i ≠ j) ↔ ((entrants ops base).get j).Deleted)
    (comes : ∀ i, Becomes ((entrants ops base).get (place i)) (result.get i)) :
    Provenance ops base result

/-- What an entrant becomes that no step deletes: itself if nothing is merged into it, and else a
new object of its class, in which attributes that no merged deltas name are as they were. -/
inductive Becomes : Entrant → Value → Prop where
  | intro {e : Entrant} {v : Value}
    (scalar : e.value.isEmbedded = false → v = e.value)
    (kept : ¬ e.Merged → v = e.value)
    (renewed : e.Merged →
      ∃ mark c s t, e.value = .embedded mark ⟨c, s⟩ ∧ v = .ofObject ⟨c, t⟩)
    (same : e.value.mark?.isSome = true → (v.sameInstance e.value = true ↔ ¬ e.Merged))
    (unnamed : ∀ n, (∀ k f ds, e.MergedAt k f ds → ds.get? n = none) →
      v.attribute? n = e.value.attribute? n)
    (last : v = e.form e.later.length)
    (inside : ∀ k f ds, e.MergedAt k f ds → Rebuilt ds (e.form k) (e.form (k + 1))) :
    Becomes e v

/-- An object into which deltas were merged: attributes that they do not name are as they were. -/
inductive Rebuilt : DeltaSet → Value → Value → Prop where
  | intro {ds : DeltaSet} {mark : Option Nat} {c : ObjectClass} {s t : AttributeSet}
    (unnamed : ∀ n, ds.get? n = none → t.get? n = s.get? n)
    (replaced : ∀ n m vs, ds.get? n = some (.replace m vs) → t.values n = vs)
    (changed : ∀ n m ops, ds.get? n = some (.complex m ops) →
      Provenance ops (s.values n) (t.values n)) :
    Rebuilt ds (.embedded mark ⟨c, s⟩) (.ofObject ⟨c, t⟩)

end

theorem values_entrants (ops : List ValueOp) (base : List Value) :
    (entrants ops base).map Entrant.value = base ++ ops.flatMap ValueOp.added := by
  have hvalue (later : List ValueOp) (vs : List Value) :
      (vs.map (Entrant.mk · later)).map Entrant.value = vs := by
    rw [List.map_map]
    exact List.map_id vs
  have hadditions : (additions ops).map Entrant.value = ops.flatMap ValueOp.added := by
    induction ops with
    | nil => rfl
    | cons op ops ih => rw [additions, List.map_append, hvalue, ih, List.flatMap_cons]
  rw [entrants, List.map_append, hvalue, hadditions]

/-- An entrant faces some of the steps. -/
theorem later_subset {ops : List ValueOp} {base : List Value} {e : Entrant}
    (he : e ∈ entrants ops base) : e.later ⊆ ops := by
  rcases List.mem_append.1 he with hbase | hadded
  · obtain ⟨v, -, rfl⟩ := List.mem_map.1 hbase
    exact List.Subset.refl ops
  · clear he
    induction ops with
    | nil => cases hadded
    | cons op ops ih =>
      rcases List.mem_append.1 hadded with hhere | hadded
      · obtain ⟨v, -, rfl⟩ := List.mem_map.1 hhere
        exact List.subset_cons_self op ops
      · exact List.Subset.trans (ih hadded) (List.subset_cons_self op ops)

/-- The result of steps is what they leave of the entrants. -/
theorem applyOps_eq_filterMap (ops : List ValueOp) (base : List Value) :
    applyOps ops base = (entrants ops base).filterMap fun e => Entrant.fate e.later e.value := by
  induction ops generalizing base with
  | nil =>
    rw [applyOps_nil, entrants, additions, List.append_nil, List.filterMap_map]
    exact List.filterMap_some.symm
  | cons op ops ih =>
    rw [applyOps_cons, ValueOp.result_run, ih, entrants, entrants, additions]
    simp only [List.map_append, List.filterMap_append, List.filterMap_map, List.append_assoc,
      List.map_filterMap, List.filterMap_filterMap]
    congr 1
    refine List.filterMap_congr fun v _ => ?_
    show _ = (op.keep v).bind (Entrant.fate ops)
    rw [Option.bind_map]
    rfl

/-- Whether the deltas that a step merges make objects as they should. -/
def ValueOp.Rebuilds (op : ValueOp) : Prop :=
  ∀ f, ∀ ds : DeltaSet, op = .merge f ds →
    ∀ mark c s, Rebuilt ds (.embedded mark ⟨c, s⟩) (.ofObject ⟨c, ds.applyTo s⟩)

section

variable {e : Entrant} (h : ∀ op ∈ e.later, op.Rebuilds)

include h

theorem rebuilt_form {k : Nat} {f : Filter Value} {ds : DeltaSet} (hmerged : e.MergedAt k f ds) :
    Rebuilt ds (e.form k) (e.form (k + 1)) := by
  obtain ⟨hop, hmerges⟩ := hmerged
  obtain ⟨f', mark, c, s, ds', hmerge, hobject, hreshape⟩ := ValueOp.reshape_of_merges hmerges
  cases hmerge
  rw [Entrant.form_succ hop, hreshape, hobject]
  exact h _ (List.mem_of_getElem? hop) f ds rfl mark c s

/-- An attribute that no merged deltas name stays through all steps. -/
theorem attribute?_form {n : String} (hn : ∀ k f ds, e.MergedAt k f ds → ds.get? n = none)
    (k : Nat) : (e.form k).attribute? n = e.value.attribute? n := by
  induction k with
  | zero => rfl
  | succ k ih =>
    rw [← ih]
    cases hop : e.later[k]? with
    | none =>
      have hend : e.later.length ≤ k := List.getElem?_eq_none_iff.1 hop
      rw [Entrant.form, Entrant.form, List.take_of_length_le hend,
        List.take_of_length_le (Nat.le_succ_of_le hend)]
    | some op =>
      cases hmerges : op.merges (e.form k) with
      | false => rw [Entrant.form_succ hop, ValueOp.reshape_of_not_merges hmerges]
      | true =>
        obtain ⟨f, _, _, _, ds, rfl, -, -⟩ := ValueOp.reshape_of_merges hmerges
        have hmerged : e.MergedAt k f ds := ⟨hop, hmerges⟩
        have hrebuilt := rebuilt_form h hmerged
        generalize e.form k = v, e.form (k + 1) = w at hrebuilt
        cases hrebuilt with
        | intro unnamed _ _ => exact unnamed n (hn k f ds hmerged)

theorem becomes_form :
    Becomes e (e.form e.later.length) := by
  refine .intro (fun hscalar => ?_) (fun hkept => ?_) (fun hmerged => ?_) (fun hmark => ?_)
    (fun n hn => attribute?_form h hn _) rfl fun k f ds hmerged => rebuilt_form h hmerged
  · exact Entrant.form_of_not_merged (Entrant.not_merged_of_scalar hscalar) _
  · exact Entrant.form_of_not_merged hkept _
  · exact Entrant.form_of_merged hmerged
  · constructor
    · intro hsame hmerged
      obtain ⟨_, c, _, t, -, hform⟩ := Entrant.form_of_merged hmerged
      rw [hform] at hsame
      cases hsame
    · intro hkept
      rw [Entrant.form_of_not_merged hkept, Value.sameInstance, hmark, beq_self_eq_true]
      rfl

end

theorem provenance_of_rebuilds {ops : List ValueOp} (h : ∀ op ∈ ops, op.Rebuilds)
    (base : List Value) : Provenance ops base (applyOps ops base) := by
  obtain ⟨place, hincreasing, hplace, hmissing⟩ :=
    exists_places _ _ _ (applyOps_eq_filterMap ops base).symm
  refine .intro place hincreasing (fun j => (hmissing j).trans Entrant.fate_eq_none_iff) fun i => ?_
  have hlater := later_subset (List.get_mem (entrants ops base) (place i))
  rw [Entrant.eq_form_of_fate (hplace i)]
  exact becomes_form fun op hop => h op (hlater hop)

theorem rebuilt_applyTo {ds : DeltaSet} (hds : Keyed.Distinct ds.toList)
    (h : ∀ m ops, .complex m ops ∈ ds.toList → ∀ vs, Provenance ops vs (applyOps ops vs))
    (mark : Option Nat) (c : ObjectClass) (s : AttributeSet) :
    Rebuilt ds (.embedded mark ⟨c, s⟩) (.ofObject ⟨c, ds.applyTo s⟩) := by
  have hget (n : String) := get?_applyTo hds s n
  refine .intro (fun n hn => ?_) (fun n m vs hn => ?_) fun n m ops hn => ?_
  · rw [hget, hn]
  · rw [AttributeSet.values, hget, hn]
    exact values_applyTo (.replace m vs) _
  · have hvalues : (ds.applyTo s).values n = applyOps ops (s.values n) := by
      rw [AttributeSet.values, hget, hn]
      exact values_applyTo (.complex m ops) _
    rw [hvalues]
    exact h m ops (Keyed.mem_of_find? hn) _

mutual

theorem ValueOp.rebuilds (op : ValueOp) (h : opWellFormed op = true) : op.Rebuilds := by
  match op with
  | .add _ | .delete _ =>
    intro f ds hop
    cases hop
  | .merge f ⟨ds⟩ =>
    rw [opWellFormed, Bool.and_eq_true, decide_eq_true_eq] at h
    intro f' ds' hop
    cases hop
    exact rebuilt_applyTo h.1 fun m ops hd => provenance_of_mem ds h.2 m ops hd

theorem rebuilds_of_mem (ops : List ValueOp) (h : opsWellFormed ops = true) (op : ValueOp)
    (hop : op ∈ ops) : op.Rebuilds := by
  match ops with
  | [] => cases hop
  | op' :: ops =>
    rw [opsWellFormed, Bool.and_eq_true] at h
    rcases List.mem_cons.1 hop with hhead | hop
    · rw [hhead]
      exact ValueOp.rebuilds op' h.1
    · exact rebuilds_of_mem ops h.2 op hop

theorem provenance_of_mem (ds : List Delta) (h : deltasWellFormed ds = true) (n : Name)
    (ops : List ValueOp) (hd : .complex n ops ∈ ds) (vs : List Value) :
    Provenance ops vs (applyOps ops vs) := by
  match ds with
  | [] => cases hd
  | d :: ds =>
    rw [deltasWellFormed, Bool.and_eq_true] at h
    rcases List.mem_cons.1 hd with hhead | hd
    · exact provenance_of_eq d h.1 n ops hhead vs
    · exact provenance_of_mem ds h.2 n ops hd vs

theorem provenance_of_eq (d : Delta) (h : d.wellFormed = true) (n : Name) (ops : List ValueOp)
    (hd : .complex n ops = d) (vs : List Value) : Provenance ops vs (applyOps ops vs) := by
  match d with
  | .replace _ _ => cases hd
  | .complex m ops' =>
    rw [Delta.wellFormed] at h
    rw [(Delta.complex.inj hd).2]
    exact provenance_of_rebuilds (rebuilds_of_mem ops' h) vs

end

/-- Nothing is lost, duplicated, reordered or rebuilt without need: what steps make of a list comes
from what was in it and what they add. -/
theorem applyOps_provenance (ops : List ValueOp) (base : List Value)
    (h : opsWellFormed ops = true) :
    (entrants ops base).map Entrant.value = base ++ ops.flatMap ValueOp.added ∧
      Provenance ops base (applyOps ops base) :=
  ⟨values_entrants ops base, provenance_of_rebuilds (rebuilds_of_mem ops h) base⟩

def book (mark : Option Nat) (copies : Int64) : Value :=
  .embedded mark ⟨⟨⟨"book", by decide⟩⟩, ⟨[⟨⟨"copies", by decide⟩, [.integer copies]⟩]⟩⟩

def shelf (mark : Option Nat) (room : String) (books : List Value) : Value :=
  .embedded mark ⟨⟨⟨"shelf", by decide⟩⟩,
    ⟨[⟨⟨"room", by decide⟩, [.string room]⟩, ⟨⟨"books", by decide⟩, books⟩]⟩⟩

def shelves : List Value :=
  [.string "none", shelf (some 0) "east" [book (some 1) 0, book (some 2) 5],
    shelf (some 3) "west" [book (some 4) 0]]

def restock : List ValueOp :=
  [.merge (.embeddedAttributeEquals 0 "Room" (.string "east"))
    ⟨[.complex ⟨"BOOKS", by decide⟩
      [.merge (.embeddedAttributeEquals 1 "Copies" (.integer 0))
        ⟨[.replace ⟨"copies", by decide⟩ [.integer 9]]⟩, .add [book (some 5) 1]]]⟩,
    .add [shelf (some 6) "north" []], .delete (some (.equalTo 2 (.string "none")))]

/-- Of two shelves the first holds two books; the book of which no copy is left is restocked, and one
more comes to it. -/
theorem restock_provenance :
    (applyOps restock shelves).map Value.mark? = [none, some 3, some 6] ∧
    (applyOps restock shelves).map (fun v =>
      (v.attribute? "books").map fun a => a.values.map Value.mark?) =
        [some [none, some 2, some 5], some [some 4], some []] ∧
    Provenance restock shelves (applyOps restock shelves) := by
  obtain ⟨-, hprovenance⟩ := applyOps_provenance restock shelves (by decide)
  exact ⟨by decide +kernel, by decide +kernel, hprovenance⟩

end Provisioning
