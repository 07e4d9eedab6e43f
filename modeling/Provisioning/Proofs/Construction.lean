import Mathlib.Data.List.Forall2
import Provisioning.Delta.Builder
import Provisioning.Proofs.Action
import Provisioning.Proofs.Keyed

/-!
# Building a delta and making it directly

A call of a builder is for one step. Building after calls gives what making their steps one by one
gives, and then the delta from them: the first call for which there is no step decides the error,
whatever follows it, and the name is looked at only when there are steps for all calls
(`Delta.Builder.built_as_made`).
-/
namespace Provisioning

section

variable {ε α β : Type} {f : α → Except ε β}

theorem mapM_eq_ok_iff {as : List α} {bs : List β} :
    as.mapM f = .ok bs ↔ List.Forall₂ (fun a b => f a = .ok b) as bs := by
  induction as generalizing bs with
  | nil =>
    rw [List.mapM_nil, List.forall₂_nil_left_iff]
    exact ⟨fun h => (Except.ok.inj h).symm, fun h => h ▸ rfl⟩
  | cons a as ih =>
    have hpure (b : β) (bs' : List β) : (pure (b :: bs') : Except ε _) = .ok bs ↔ bs = b :: bs' :=
      ⟨fun h => (Except.ok.inj h).symm, fun h => h ▸ rfl⟩
    simp only [List.mapM_cons, bind_eq_ok_iff, ih, hpure, List.forall₂_cons_left_iff,
      exists_and_left]

theorem exists_mapM_iff {as : List α} :
    (∃ bs, as.mapM f = .ok bs) ↔ ∀ a ∈ as, ∃ b, f a = .ok b := by
  simp only [mapM_eq_ok_iff]
  constructor
  · rintro ⟨bs, h⟩
    induction h with
    | nil => exact nofun
    | cons hab _ ih => exact List.forall_mem_cons.2 ⟨⟨_, hab⟩, ih⟩
  · intro h
    induction as with
    | nil => exact ⟨[], .nil⟩
    | cons a as ih =>
      obtain ⟨⟨b, hb⟩, has⟩ := List.forall_mem_cons.1 h
      obtain ⟨bs, hbs⟩ := ih has
      exact ⟨b :: bs, .cons hb hbs⟩

/-- The first to fail decides. -/
theorem mapM_eq_error_iff {as : List α} {e : ε} :
    as.mapM f = .error e ↔
      ∃ before a after, as = before ++ a :: after ∧ (∀ b ∈ before, ∃ c, f b = .ok c) ∧
        f a = .error e := by
  induction as with
  | nil => exact ⟨nofun, fun ⟨before, a, after, h, _⟩ => by simp at h⟩
  | cons a as ih =>
    have hpure (b : β) : ¬ ∃ bs, as.mapM f = .ok bs ∧
        (pure (b :: bs) : Except ε _) = .error e := nofun
    simp only [List.mapM_cons, bind_eq_error_iff, hpure, or_false, ih]
    constructor
    · rintro (ha | ⟨c, ha, before, b, after, rfl, hbefore, hb⟩)
      · exact ⟨[], a, as, rfl, nofun, ha⟩
      · exact ⟨a :: before, b, after, rfl, List.forall_mem_cons.2 ⟨⟨c, ha⟩, hbefore⟩, hb⟩
    · rintro ⟨before, b, after, has, hbefore, hb⟩
      cases before with
      | nil => exact .inl ((List.cons.inj has).1 ▸ hb)
      | cons b' before =>
        obtain ⟨rfl, rfl⟩ := List.cons.inj has
        obtain ⟨⟨c, ha⟩, hbefore⟩ := List.forall_mem_cons.1 hbefore
        exact .inr ⟨c, ha, before, b, after, rfl, hbefore, hb⟩

end

namespace Delta

variable {name : String} {ops : List ValueOp}

theorem exists_complex_iff : (∃ d, complex? name ops = .ok d) ↔ Text.isBlank name = false := by
  unfold complex? Name.require Name.of?
  by_cases h : Text.isBlank name = false
  · rw [dif_pos h]
    exact ⟨fun _ => h, fun _ => ⟨_, rfl⟩⟩
  · rw [dif_neg h]
    exact ⟨nofun, fun h' => absurd h' h⟩

theorem complex?_eq_error_iff {e : Error} :
    complex? name ops = .error e ↔
      Text.isBlank name = true ∧ e = .invalidArgument (.blankName .delta) := by
  unfold complex? Name.require Name.of?
  by_cases h : Text.isBlank name = false
  · rw [dif_pos h, h]
    exact ⟨nofun, nofun⟩
  · rw [dif_neg h]
    refine ⟨fun herror => ⟨eq_true_of_ne_false h, (Except.error.inj herror).symm⟩, ?_⟩
    rintro ⟨-, rfl⟩
    rfl

end Delta

namespace Delta.Builder

/-- A call of a builder. -/
inductive Call where
  | add (values : List Value)
  | deleteMatching (filter : Filter Value)
  | deleteAll
  | merge (filter : Option (Filter Value)) (deltas : List Delta)
  | op (step : ValueOp)

/-- The builder after a call. -/
def call (b : Builder) : Call → Builder
  | .add vs => b.add vs
  | .deleteMatching f => b.deleteMatching f
  | .deleteAll => b.deleteAll
  | .merge f ds => b.merge f ds
  | .op step => b.op step

/-- The builder after calls made one after the other. -/
def calls (b : Builder) (cs : List Call) : Builder := cs.foldl call b

namespace Call

/-- The step that a call is for, made on its own. -/
def step? : Call → Except Error ValueOp
  | .add vs => .ok (.add vs)
  | .deleteMatching f => .ok (.deleteMatching f)
  | .deleteAll => .ok .deleteAll
  | .merge f ds => Op.merge? f ds
  | .op step => .ok step

/-- Whether a call, if it is for a merge, has a filter, and deltas for different attributes. -/
def Sound : Call → Prop
  | .merge f ds => f.isSome = true ∧ Keyed.Distinct ds
  | .add _ | .deleteMatching _ | .deleteAll | .op _ => True

/-- What is wrong with a call: its merge has no filter, whatever the deltas, or it has one, and a
first delta for the attribute of an earlier one. -/
inductive Fails : Call → Fault → Prop where
  | noFilter (ds : List Delta) : Fails (.merge none ds) .mergeWithoutFilter
  | repeated (f : Filter Value) {before after : List Delta} {d : Delta}
    (hbefore : Keyed.Distinct before) (hd : ∃ e ∈ before, HasName.key e = HasName.key d) :
    Fails (.merge (some f) (before ++ d :: after)) (.repeatedDelta d.name.text)

variable {c : Call}

theorem exists_step_iff : (∃ op, c.step? = .ok op) ↔ c.Sound := by
  cases c with
  | add | deleteMatching | deleteAll | op => exact ⟨fun _ => trivial, fun _ => ⟨_, rfl⟩⟩
  | merge f ds =>
    cases f with
    | none => exact ⟨nofun, nofun⟩
    | some f =>
      constructor
      · rintro ⟨op, hop⟩
        obtain ⟨s, hs, -⟩ := of_map_ok hop
        exact ⟨rfl, (Keyed.ofList?_eq_ok_iff.1 (of_mapError_ok hs)).2⟩
      · rintro ⟨-, hds⟩
        have hs : Keyed.ofList? ds = .ok ⟨ds⟩ := Keyed.ofList?_eq_ok_iff.2 ⟨rfl, hds⟩
        refine ⟨.merge f ⟨ds⟩, ?_⟩
        rw [step?, Op.merge?, DeltaSet.of?, hs]
        rfl

theorem step?_eq_error_iff {e : Error} :
    c.step? = .error e ↔ ∃ fault, c.Fails fault ∧ e = .invalidArgument fault := by
  cases c with
  | add | deleteMatching | deleteAll | op => exact ⟨nofun, fun ⟨_, h, _⟩ => nomatch h⟩
  | merge f ds =>
    cases f with
    | none =>
      constructor
      · rintro ⟨⟩
        exact ⟨_, .noFilter ds, rfl⟩
      · rintro ⟨fault, ⟨⟩, rfl⟩
        rfl
    | some f =>
      constructor
      · intro h
        obtain ⟨d, hd, rfl⟩ := of_mapError_error (of_map_error h)
        obtain ⟨before, after, rfl, hbefore, hrepeat⟩ := Keyed.ofList?_eq_error_iff.1 hd
        exact ⟨_, .repeated f hbefore hrepeat, rfl⟩
      · rintro ⟨fault, hfails, rfl⟩
        cases hfails with
        | @repeated _ before after d hbefore hrepeat =>
          have hd : Keyed.ofList? (before ++ d :: after) = .error d :=
            Keyed.ofList?_eq_error_iff.2 ⟨before, after, rfl, hbefore, hrepeat⟩
          rw [step?, Op.merge?, DeltaSet.of?, hd]
          rfl

end Call

variable {b : Builder} {c : Call}

/-- A call for which there is a step appends it. -/
theorem call_of_ok {op : ValueOp} (h : c.step? = .ok op) (b : Builder) : b.call c = b.op op := by
  cases c with
  | add | deleteMatching | deleteAll | op => cases h; rfl
  | merge f ds =>
    have hmerge : Op.merge? f ds = .ok op := h
    rw [call, merge, hmerge]

/-- A call for which there is none is remembered, if none was before it. -/
theorem call_of_error {e : Error} (h : c.step? = .error e) (b : Builder) :
    b.call c = { b with fault := b.fault.or (some e) } := by
  cases c with
  | add | deleteMatching | deleteAll | op => cases h
  | merge f ds =>
    have hmerge : Op.merge? f ds = .error e := h
    rw [call, merge, hmerge]

/-- A fault that is remembered is what building reports, whatever calls follow. -/
theorem build_calls_of_fault {e : Error} (hb : b.fault = some e) (cs : List Call) :
    (b.calls cs).build = .error e := by
  induction cs generalizing b with
  | nil => rw [calls, List.foldl_nil, build, hb]
  | cons c cs ih =>
    have hkept : (b.call c).fault = some e := by
      cases h : c.step? with
      | ok op => rw [call_of_ok h, ← hb, Builder.op]
      | error e' => rw [call_of_error h, hb, Option.some_or]
    exact ih hkept

/-- If there is none, building makes the steps of the calls, and appends them to those so far. -/
theorem build_calls (hb : b.fault = none) (cs : List Call) :
    (b.calls cs).build =
      cs.mapM Call.step? >>= fun ops => Delta.complex? b.name (b.ops ++ ops) := by
  induction cs generalizing b with
  | nil =>
    rw [calls, List.foldl_nil, build, hb, List.mapM_nil]
    show _ = Delta.complex? b.name (b.ops ++ [])
    rw [List.append_nil]
  | cons c cs ih =>
    show ((b.call c).calls cs).build = _
    rw [List.mapM_cons]
    cases h : c.step? with
    | ok op =>
      have hrest : ((b.op op).calls cs).build = _ := ih hb
      rw [call_of_ok h, hrest]
      cases cs.mapM Call.step? with
      | error e => rfl
      | ok ops => exact congrArg (Delta.complex? b.name) (List.append_assoc b.ops [op] ops)
    | error e =>
      -- nothing is known of the steps of the later calls, which go on to be appended
      rw [call_of_error h]
      exact build_calls_of_fault (by rw [hb, Option.none_or]) cs

/-- Building after any calls gives what making their steps and then the delta gives. That is a
delta exactly if each merge has a filter, and deltas for different attributes, and the name is not
blank: then it is the delta made directly from one step for each call, in the order of the calls.
Otherwise the first call for which there is no step says what is wrong, and the name only if there
is no such call. -/
theorem built_as_made (name : String) (cs : List Call) :
    let built := ((start name).calls cs).build
    built = (cs.mapM Call.step? >>= Delta.complex? name) ∧
      ((∃ d, built = .ok d) ↔ (∀ c ∈ cs, c.Sound) ∧ Text.isBlank name = false) ∧
      (∀ d, built = .ok d ↔
        ∃ ops, List.Forall₂ (fun c op => c.step? = .ok op) cs ops ∧
          Delta.complex? name ops = .ok d) ∧
      ∀ e, built = .error e ↔
        (∃ before c after, cs = before ++ c :: after ∧ (∀ c' ∈ before, c'.Sound) ∧
          ∃ fault, c.Fails fault ∧ e = .invalidArgument fault) ∨
        (∀ c ∈ cs, c.Sound) ∧ Text.isBlank name = true ∧
          e = .invalidArgument (.blankName .delta) := by
  intro built
  have hbuilt : built = (cs.mapM Call.step? >>= Delta.complex? name) := build_calls rfl cs
  have hsound : (∃ ops, cs.mapM Call.step? = .ok ops) ↔ ∀ c ∈ cs, c.Sound := by
    simp only [exists_mapM_iff, Call.exists_step_iff]
  have hfails (e : Error) : cs.mapM Call.step? = .error e ↔
      ∃ before c after, cs = before ++ c :: after ∧ (∀ c' ∈ before, c'.Sound) ∧
        ∃ fault, c.Fails fault ∧ e = .invalidArgument fault := by
    simp only [mapM_eq_error_iff, Call.exists_step_iff, Call.step?_eq_error_iff]
  refine ⟨hbuilt, ?_, fun d => ?_, fun e => ?_⟩
  · simp only [hbuilt, bind_eq_ok_iff]
    rw [exists_comm]
    simp only [exists_and_left, Delta.exists_complex_iff, exists_and_right, hsound]
  · simp only [hbuilt, bind_eq_ok_iff, mapM_eq_ok_iff]
  · simp only [hbuilt, bind_eq_error_iff, Delta.complex?_eq_error_iff, exists_and_right, hsound,
      hfails]

example (vs : List Value) (ds : List Delta) :
    ((start "").calls [.add vs, .merge none ds, .deleteAll]).build =
      .error (.invalidArgument .mergeWithoutFilter) := rfl

end Delta.Builder

end Provisioning
