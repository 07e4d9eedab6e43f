import Mathlib.Data.List.Forall2
import Provisioning.Proofs.Edit

/-!
# Which questions filters are asked

A question that a step asks has a place: the step, the element it is about and, below an element
that deltas are merged into, the delta and a place among its steps. The questions of all places, in
the order of places, are those that are asked (`placed_runOps`). A merge has no question about a
scalar, so its filter may judge scalars as it likes: neither the values nor the candidates of the
questions depend on it (`follows_runOps`).
-/
namespace Provisioning

/-- The place of a question: a step and an element of the list that the step runs over, and then,
where deltas are merged into this element, one of the deltas and a place among its steps. -/
abbrev Place := List Nat

/-- What a step asks about an element: a deletion asks its filter about every one, a merge about
embedded objects only. -/
def ValueOp.asksAbout : ValueOp → Value → Option Consultation
  | .delete (some f), v => some (.value f v)
  | .merge f _, v => if v.isEmbedded then some (.value f v) else none
  | _, _ => none

/-- The deltas that a step merges into an element, and the attributes that it merges them into. -/
def ValueOp.mergesInto : ValueOp → Value → Option (List Delta × AttributeSet)
  | .merge f ds, .embedded mark o =>
    if f.accepts (.embedded mark o) then some (ds.toList, o.attributes) else none
  | _, _ => none

/-- The steps that a delta runs over values; a replacement does not look at them. -/
def Delta.ops : Delta → List ValueOp
  | .complex _ ops => ops
  | .replace .. => []

mutual

/-- The question at a place, where steps run over values. A step runs over what the steps before it
have left, which is by definition what `applyOps` makes of them alone; that the questions are asked
of these values when all steps run is part of what is proved. -/
def questionAt (ops : List ValueOp) (vs : List Value) : Place → Option Consultation
  | [] => none
  | i :: p => ops[i]?.bind fun op => questionOf op (applyOps (ops.take i) vs) p

/-- The question at a place, where one step runs over values. -/
def questionOf (op : ValueOp) (vs : List Value) : Place → Option Consultation
  | [] => none
  | j :: p => vs[j]?.bind fun v => questionAbout op v p

/-- The question at a place, where a step meets one element. -/
def questionAbout (op : ValueOp) (v : Value) : Place → Option Consultation
  | [] => op.asksAbout v
  | k :: p => (op.mergesInto v).bind fun (ds, s) =>
    ds[k]?.bind fun d => questionAt d.ops (s.values d.name.text) p

end

/-- Whether a list holds the questions of all places, each once, in order: what is at a place comes
before what is below it, and this before what is to its right. -/
def Placed (asked : List Consultation) (question : Place → Option Consultation) : Prop :=
  ∃ places : List Place, places.Pairwise (· < ·) ∧
    (∀ p, p ∈ places ↔ (question p).isSome = true) ∧ asked.map some = places.map question

/-- The place one step to the right. -/
def Place.right : Place → Place
  | [] => []
  | i :: p => (i + 1) :: p

theorem Place.right_lt_right {p q : Place} (h : p < q) : p.right < q.right := by
  cases p with
  | nil =>
    cases q with
    | nil => exact absurd h (List.lt_irrefl _)
    | cons j q => exact List.nil_lt_cons _ _
  | cons i p =>
    cases q with
    | nil => exact absurd h (List.not_lt_nil _)
    | cons j q =>
      refine List.cons_lt_cons_iff.2 ((List.cons_lt_cons_iff.1 h).imp ?_ ?_)
      · exact Nat.succ_lt_succ
      · exact And.imp_left (congrArg Nat.succ)

namespace Placed

variable {asked asked' : List Consultation} {question question' : Place → Option Consultation}

theorem congr (h : Placed asked question) (heq : ∀ p, question' p = question p) :
    Placed asked question' :=
  (funext heq : question' = question) ▸ h

theorem nil (hnone : ∀ p, question p = none) : Placed [] question := by
  refine ⟨[], .nil, fun p => ?_, rfl⟩
  rw [hnone]
  exact ⟨fun h => absurd h List.not_mem_nil, fun h => by cases h⟩

/-- The questions below the first branch come before those below the other ones. -/
theorem append (hroot : question [] = none) (hfirst : Placed asked fun p => question (0 :: p))
    (hothers : Placed asked' fun p => question p.right) : Placed (asked ++ asked') question := by
  obtain ⟨first, hlt, hmem, heq⟩ := hfirst
  obtain ⟨others, hlt', hmem', heq'⟩ := hothers
  have hbranch (p : Place) (hp : p ∈ others) : ∃ i q, p = i :: q := by
    cases p with
    | nil =>
      have hsome : (question []).isSome = true := (hmem' []).1 hp
      rw [hroot] at hsome
      cases hsome
    | cons i q => exact ⟨i, q, rfl⟩
  -- the places of the first branch start with 0, all the others with more
  refine ⟨first.map (0 :: ·) ++ others.map Place.right, ?_, fun p => ?_, ?_⟩
  · refine List.pairwise_append.2 ⟨?_, hlt'.map _ fun _ _ h => Place.right_lt_right h, ?_⟩
    · exact hlt.map _ fun _ _ h => List.cons_lt_cons_iff.2 (.inr ⟨rfl, h⟩)
    · intro p hp q hq
      obtain ⟨p', -, rfl⟩ := List.mem_map.1 hp
      obtain ⟨q', hq', rfl⟩ := List.mem_map.1 hq
      obtain ⟨i, q', rfl⟩ := hbranch q' hq'
      exact List.cons_lt_cons_iff.2 (.inl (Nat.succ_pos i))
  · rw [List.mem_append, List.mem_map, List.mem_map]
    match p with
    | [] =>
      rw [hroot]
      refine ⟨fun h => ?_, fun h => by cases h⟩
      obtain ⟨q, -, hq⟩ | ⟨q, hq, hright⟩ := h
      · cases hq
      · obtain ⟨i, q, rfl⟩ := hbranch q hq
        cases hright
    | 0 :: p =>
      rw [← hmem p]
      refine ⟨fun h => ?_, fun h => .inl ⟨p, h, rfl⟩⟩
      obtain ⟨q, hq, hqp⟩ | ⟨q, hq, hright⟩ := h
      · cases hqp
        exact hq
      · obtain ⟨i, q, rfl⟩ := hbranch q hq
        cases hright
    | (i + 1) :: p =>
      refine Iff.trans ⟨fun h => ?_, fun h => .inr ⟨i :: p, h, rfl⟩⟩ (hmem' (i :: p))
      obtain ⟨q, hq, hqp⟩ | ⟨q, hq, hright⟩ := h
      · cases hqp
      · obtain ⟨j, q, rfl⟩ := hbranch q hq
        cases hright
        exact hq
  · rw [List.map_append, List.map_append, List.map_map, List.map_map, heq, heq']
    rfl

/-- The question at a place comes before those below it. -/
theorem below (h : Placed asked fun | [] => none | k :: p => question (k :: p)) :
    Placed ((question []).toList ++ asked) question := by
  obtain ⟨places, hlt, hmem, heq⟩ := h
  have hnil : [] ∉ places := fun h => by cases (hmem []).1 h
  have hbelow : places.map (fun | [] => none | k :: p => question (k :: p)) =
      places.map question := by
    refine List.map_congr_left fun p hp => ?_
    cases p with
    | nil => exact absurd hp hnil
    | cons k p => rfl
  rw [hbelow] at heq
  cases hroot : question [] with
  | none =>
    refine ⟨places, hlt, fun p => ?_, heq⟩
    cases p with
    | nil => simp only [hnil, hroot, Option.isSome_none, Bool.false_eq_true]
    | cons k p => exact hmem (k :: p)
  | some c =>
    refine ⟨[] :: places, List.pairwise_cons.2 ⟨fun p hp => ?_, hlt⟩, fun p => ?_, ?_⟩
    · cases p with
      | nil => exact absurd hp hnil
      | cons k p => exact List.nil_lt_cons k p
    · cases p with
      | nil => simp only [List.mem_cons, true_or, hroot, Option.isSome_some]
      | cons k p =>
        rw [List.mem_cons, hmem (k :: p)]
        exact or_iff_right (List.cons_ne_nil k p)
    · rw [List.map_cons, hroot, ← heq]
      rfl

/-- The questions about the elements of a list come one element after the other. -/
theorem flatMap {α : Type} {as : List α} {ask : α → List Consultation}
    {question : α → Place → Option Consultation} (h : ∀ a ∈ as, Placed (ask a) (question a)) :
    Placed (as.flatMap ask) fun | [] => none | i :: p => as[i]?.bind (question · p) := by
  induction as with
  | nil => exact nil fun p => by cases p <;> rfl
  | cons a as ih =>
    refine append rfl (h a List.mem_cons_self) ?_
    refine (ih fun b hb => h b (List.mem_cons_of_mem _ hb)).congr fun p => ?_
    cases p <;> rfl

end Placed

theorem questionOf_eq_none {op : ValueOp} (h : ∀ v p, questionAbout op v p = none)
    (vs : List Value) (p : Place) : questionOf op vs p = none := by
  cases p with
  | nil => rfl
  | cons j p => rw [questionOf, funext fun v => h v p, Option.bind_fun_none]

theorem placed_of_elements {op : ValueOp} {vs : List Value} {ask : Value → List Consultation}
    (h : ∀ v ∈ vs, Placed (ask v) (questionAbout op v)) :
    Placed (vs.flatMap ask) (questionOf op vs) :=
  (Placed.flatMap h).congr fun p => by cases p <;> rfl

theorem asked_runDeltas (ds : List Delta) (base result : AttributeSet) :
    (runDeltas ds base result).asked =
      ds.flatMap fun d => (d.run (base.get? d.name.text)).asked := by
  induction ds generalizing result with
  | nil => rw [runDeltas]; rfl
  | cons d ds ih => rw [runDeltas, Traced.asked_bind, ih, List.flatMap_cons]

mutual

/-- Steps ask the questions of their places, each once and in order. -/
theorem placed_runOps (ops : List ValueOp) (vs : List Value) :
    Placed (runOps ops vs).asked (questionAt ops vs) := by
  match ops with
  | [] =>
    rw [runOps]
    exact .nil fun p => by cases p <;> rfl
  | op :: ops =>
    rw [runOps, Traced.asked_bind]
    refine .append rfl ((placed_runOp op vs).congr fun p => ?_)
      ((placed_runOps ops (ValueOp.run op vs).result).congr fun p => ?_)
    · rw [questionAt, List.getElem?_cons_zero, Option.bind_some, List.take_zero, applyOps_nil]
    · cases p with
      | nil => rfl
      | cons i p =>
        rw [Place.right, questionAt, questionAt, List.getElem?_cons_succ, List.take_succ_cons,
          applyOps_cons]

/-- One step asks about the elements in order. -/
theorem placed_runOp (op : ValueOp) (vs : List Value) :
    Placed (ValueOp.run op vs).asked (questionOf op vs) := by
  match op with
  | .add ws =>
    rw [ValueOp.run]
    exact .nil (questionOf_eq_none (fun v p => by cases p <;> rfl) vs)
  | .delete none =>
    rw [ValueOp.run]
    exact .nil (questionOf_eq_none (fun v p => by cases p <;> rfl) vs)
  | .delete (some f) =>
    rw [ValueOp.run, Traced.asked_dropWhere]
    refine placed_of_elements fun v _ => ?_
    exact .below (.nil fun p => by cases p <;> rfl)
  | .merge f ⟨ds⟩ =>
    rw [ValueOp.run, Traced.asked_mapList]
    refine placed_of_elements fun v _ => ?_
    match v with
    | .embedded mark o =>
      -- the element itself is asked about first, and what follows depends on the answer
      refine Placed.below ?_
      show Placed (if f.accepts (.embedded mark o) = true then _ else _ : Traced Value).asked _
      split
      · rename_i haccepts
        rw [Traced.asked_bind, Traced.asked_pure, List.append_nil, asked_runDeltas]
        refine (Placed.flatMap fun d hd =>
          placed_runDelta_of_mem ds d hd o.attributes).congr fun p => ?_
        cases p with
        | nil => rfl
        | cons k p =>
          simp only [questionAbout, ValueOp.mergesInto, if_pos haccepts, Option.bind_some]
      · rename_i hrejects
        refine .nil fun p => ?_
        cases p with
        | nil => rfl
        | cons k p =>
          simp only [questionAbout, ValueOp.mergesInto, if_neg hrejects, Option.bind_none]
    | .string _ | .integer _ | .double _ | .boolean _ | .binary _ | .dateTime _ =>
      exact .nil fun p => by cases p <;> rfl

theorem placed_runDelta_of_mem (ds : List Delta) (d : Delta) (hd : d ∈ ds) (base : AttributeSet) :
    Placed (d.run (base.get? d.name.text)).asked (questionAt d.ops (base.values d.name.text)) := by
  match ds with
  | [] => cases hd
  | d' :: ds =>
    rcases List.mem_cons.1 hd with hhead | hd
    · rw [hhead]
      exact placed_runDelta d' base
    · exact placed_runDelta_of_mem ds d hd base

/-- A delta asks the questions of its steps. -/
theorem placed_runDelta (d : Delta) (base : AttributeSet) :
    Placed (d.run (base.get? d.name.text)).asked (questionAt d.ops (base.values d.name.text)) := by
  match d with
  | .complex n ops =>
    rw [Delta.run, Traced.asked_bind, Traced.asked_pure, List.append_nil]
    exact placed_runOps ops _
  | .replace n vs =>
    rw [Delta.run]
    exact .nil fun p => by cases p <;> rfl

end

section

variable (R : Filter Value → Filter Value → Prop)

mutual

/-- Steps of one kind that bring in the same values, delete by the same filter, and merge, at any
depth, by related filters. -/
inductive ValueOp.Refiltered : Op Value Delta → Op Value Delta → Prop where
  | add (vs : List Value) : ValueOp.Refiltered (.add vs) (.add vs)
  | delete (f : Option (Filter Value)) : ValueOp.Refiltered (.delete f) (.delete f)
  | merge {f g : Filter Value} {ds es : List Delta} (hfilter : R f g)
    (hdeltas : List.Forall₂ Delta.Refiltered ds es) :
    ValueOp.Refiltered (.merge f ⟨ds⟩) (.merge g ⟨es⟩)

/-- Deltas for one attribute that differ in the filters of merges alone. -/
inductive Delta.Refiltered : Delta → Delta → Prop where
  | complex (n : Name) {ops ops' : List (Op Value Delta)}
    (hops : List.Forall₂ ValueOp.Refiltered ops ops') :
    Delta.Refiltered (.complex n ops) (.complex n ops')
  | replace (n : Name) (vs : List Value) : Delta.Refiltered (.replace n vs) (.replace n vs)

end

/-- Consultations about one candidate: of one filter, or of related ones about an embedded
object. -/
inductive Consultation.Refiltered : Consultation → Consultation → Prop where
  | same (c : Consultation) : Refiltered c c
  | merge {f g : Filter Value} {v : Value} (hfilter : R f g) (hembedded : v.isEmbedded = true) :
    Refiltered (.value f v) (.value g v)

end

/-- Whether related filters answer alike on embedded objects; on scalars they may differ. -/
def AgreeOnObjects (R : Filter Value → Filter Value → Prop) : Prop :=
  ∀ f g, R f g → ∀ v : Value, v.isEmbedded = true → g.accepts v = f.accepts v

/-- Evaluations with one result, of which the consultations are related one by one. -/
structure Traced.Follows {α : Type} (Q : Consultation → Consultation → Prop) (t u : Traced α) :
    Prop where
  result : u.result = t.result
  asked : List.Forall₂ Q t.asked u.asked

namespace Traced.Follows

variable {α β : Type} {Q : Consultation → Consultation → Prop} {t u : Traced α}

theorem pure (a : α) : Follows Q (Pure.pure a) (Pure.pure a) := ⟨rfl, .nil⟩

theorem refl (hQ : ∀ c, Q c c) (t : Traced α) : Follows Q t t :=
  ⟨rfl, List.forall₂_same.2 fun c _ => hQ c⟩

theorem bind {f g : α → Traced β} (h : Follows Q t u) (hf : ∀ a, Follows Q (f a) (g a)) :
    Follows Q (t >>= f) (u >>= g) := by
  obtain ⟨hresult, hasked⟩ := h
  obtain ⟨hresult', hasked'⟩ := hf t.result
  refine ⟨?_, ?_⟩
  · rw [Traced.result_bind, Traced.result_bind, hresult, hresult']
  · rw [Traced.asked_bind, Traced.asked_bind, hresult]
    exact List.rel_append hasked hasked'

theorem mapList {f g : α → Traced β} (h : ∀ a, Follows Q (f a) (g a)) (as : List α) :
    Follows Q (Traced.mapList f as) (Traced.mapList g as) := by
  induction as with
  | nil => exact .pure _
  | cons a as ih => exact (h a).bind fun b => ih.bind fun bs => .pure (b :: bs)

end Traced.Follows

section

variable {R : Filter Value → Filter Value → Prop}

theorem Delta.Refiltered.name_eq {d e : Delta} (h : d.Refiltered R e) : e.name = d.name := by
  cases h <;> rfl

theorem follows_askValue (hR : AgreeOnObjects R) {f g : Filter Value} (hfg : R f g) (v : Value)
    (hv : v.isEmbedded = true) :
    Traced.Follows (Consultation.Refiltered R) (f.askValue v) (g.askValue v) :=
  ⟨hR f g hfg v hv, .cons (.merge hfg hv) .nil⟩

mutual

/-- Steps ask about the same candidates and come to the same values. -/
theorem follows_runOps (hR : AgreeOnObjects R) (ops ops' : List ValueOp)
    (h : List.Forall₂ (ValueOp.Refiltered R) ops ops') (vs : List Value) :
    Traced.Follows (Consultation.Refiltered R) (runOps ops vs) (runOps ops' vs) := by
  match ops with
  | [] =>
    cases h
    exact .refl .same _
  | op :: ops =>
    obtain ⟨⟩ | ⟨hop, hops⟩ := h
    rw [runOps, runOps]
    exact (follows_runOp hR op _ hop vs).bind fun next => follows_runOps hR ops _ hops next

theorem follows_runOp (hR : AgreeOnObjects R) (op op' : ValueOp)
    (h : ValueOp.Refiltered R op op') (vs : List Value) :
    Traced.Follows (Consultation.Refiltered R) (ValueOp.run op vs) (ValueOp.run op' vs) := by
  match op with
  | .add ws =>
    cases h
    exact .refl .same _
  | .delete f =>
    cases h
    exact .refl .same _
  | .merge f ⟨ds⟩ =>
    obtain ⟨⟩ | ⟨⟩ | ⟨hfg, hdeltas⟩ := h
    rw [ValueOp.run, ValueOp.run]
    refine .mapList (fun v => ?_) vs
    match v with
    | .embedded mark o =>
      refine (follows_askValue hR hfg _ rfl).bind fun accepted => ?_
      cases accepted with
      | true =>
        have hmerged := follows_runDeltas hR ds _ hdeltas o.attributes o.attributes
        exact hmerged.bind fun _ => .pure _
      | false => exact .pure _
    | .string _ | .integer _ | .double _ | .boolean _ | .binary _ | .dateTime _ => exact .pure _

theorem follows_runDeltas (hR : AgreeOnObjects R) (ds es : List Delta)
    (h : List.Forall₂ (Delta.Refiltered R) ds es) (base result : AttributeSet) :
    Traced.Follows (Consultation.Refiltered R) (runDeltas ds base result)
      (runDeltas es base result) := by
  match ds with
  | [] =>
    cases h
    exact .refl .same _
  | d :: ds =>
    obtain ⟨⟩ | ⟨hd, hds⟩ := h
    rw [runDeltas, runDeltas, hd.name_eq]
    exact (follows_runDelta hR d _ hd _).bind fun changed =>
      follows_runDeltas hR ds _ hds base (result.put changed)

theorem follows_runDelta (hR : AgreeOnObjects R) (d e : Delta) (h : d.Refiltered R e)
    (base : Option Attribute) :
    Traced.Follows (Consultation.Refiltered R) (d.run base) (e.run base) := by
  match d with
  | .complex n ops =>
    cases h with
    | complex _ hops =>
      rw [Delta.run, Delta.run]
      exact (follows_runOps hR ops _ hops _).bind fun values => .pure (Attribute.mk n values)
  | .replace n vs =>
    cases h
    exact .refl .same _

end

end

/-- Every question is asked at its place, once, and in the order of places: of a deletion about
every element that is there, of a merge about every embedded object, and below it of what is merged
into it before the next one. So merges that judge scalars differently come to the same values by
the same questions. -/
theorem consultations_placed (ops : List ValueOp) (vs : List Value) :
    (∃ places : List Place, places.Pairwise (· < ·) ∧
      (∀ p, p ∈ places ↔ (questionAt ops vs p).isSome = true) ∧
      (runOps ops vs).asked.map some = places.map (questionAt ops vs)) ∧
    ∀ (R : Filter Value → Filter Value → Prop) (ops' : List ValueOp), AgreeOnObjects R →
      List.Forall₂ (ValueOp.Refiltered R) ops ops' →
      applyOps ops' vs = applyOps ops vs ∧
        List.Forall₂ (Consultation.Refiltered R) (runOps ops vs).asked (runOps ops' vs).asked := by
  refine ⟨placed_runOps ops vs, fun R ops' hR h => ?_⟩
  obtain ⟨hresult, hasked⟩ := follows_runOps hR ops ops' h vs
  exact ⟨hresult, hasked⟩

def box (content : List Value) : Value :=
  .ofObject ⟨⟨⟨"box", by decide⟩⟩, ⟨[⟨⟨"content", by decide⟩, content⟩]⟩⟩

def pen : Value := .string "pen"

def boxes : Filter Value := .predicate 0 "boxes" Value.isEmbedded

def anything : Filter Value := .predicate 1 "anything" fun _ => true

def withoutPens (into : Filter Value) : List ValueOp :=
  [.merge into
      ⟨[.complex ⟨"Content", by decide⟩ [.merge into ⟨[]⟩, .delete (some (.equalTo 2 pen))]]⟩,
    .delete (some (.equalTo 2 pen))]

def desk : List Value := [pen, box [pen, box []]]

/-- A box with a pen and an empty box in it lies beside another pen. Boxes are looked into, at two
levels, by a filter that accepts boxes, or else by one that would accept pens too. -/
theorem withoutPens_asks_in_order :
    (∃ places : List Place, places.Pairwise (· < ·) ∧
      (∀ p, p ∈ places ↔ (questionAt (withoutPens boxes) desk p).isSome = true) ∧
      (runOps (withoutPens boxes) desk).asked.map some =
        places.map (questionAt (withoutPens boxes) desk)) ∧
    questionAt (withoutPens boxes) desk [0, 1, 0, 0, 1] = some (.value boxes (box [])) ∧
    applyOps (withoutPens anything) desk = applyOps (withoutPens boxes) desk ∧
    List.Forall₂ (Consultation.Refiltered fun f g => f = boxes ∧ g = anything)
      (runOps (withoutPens boxes) desk).asked (runOps (withoutPens anything) desk).asked := by
  obtain ⟨hplaced, hother⟩ := consultations_placed (withoutPens boxes) desk
  have hagree : AgreeOnObjects fun f g => f = boxes ∧ g = anything := by
    rintro _ _ ⟨rfl, rfl⟩ v hv
    exact hv.symm
  have hsteps : List.Forall₂ (ValueOp.Refiltered fun f g => f = boxes ∧ g = anything)
      (withoutPens boxes) (withoutPens anything) :=
    .cons (.merge ⟨rfl, rfl⟩ (.cons (.complex _
      (.cons (.merge ⟨rfl, rfl⟩ .nil) (.cons (.delete _) .nil))) .nil)) (.cons (.delete _) .nil)
  exact ⟨hplaced, rfl, hother _ (withoutPens anything) hagree hsteps⟩

end Provisioning
