import Provisioning.Proofs.Course
import Provisioning.Proofs.Decoding
import Provisioning.Proofs.Independence

/-!
# Armed failures and counted calls

Every call of the resource in memory is entered first, which counts it, then asks whether its
operation is offered, and only then looks for an armed failure; what follows has no part in the
counts or the failures (`Unaware`). So whatever is asked of the resource, in whatever order with
armings and resets, both can be told from the steps alone: what is armed for an operation from the
last step that decides it (`awaiting`), its count from the calls since the last reset
(`invocations`). A failure that was armed is answered at most once (`failures_sublist`).
-/
namespace Provisioning.Memory

variable {α β : Type}

/-- The documents of one resource with the counts and the armed failures of another. -/
def withLedger (m n : Memory) : Memory := { m with calls := n.calls, armed := n.armed }

/-- An action that neither sees nor changes the counts and the armed failures, and never fails as a
resource does. -/
structure Unaware (act : Action Memory α) : Prop where
  frame : ∀ m n, act (m.withLedger n) = { act m with state := (act m).state.withLedger n }
  harmless : ∀ m, NoFailure (act m).result

theorem unaware_ofExcept {r : Except Error α} (h : NoFailure r) :
    Unaware (.ofExcept r : Action Memory α) :=
  ⟨fun _ _ => rfl, fun _ => h⟩

theorem unaware_pure (a : α) : Unaware (pure a : Action Memory α) :=
  unaware_ofExcept (noFailure_ok a)

theorem unaware_ofTraced (t : Traced α) : Unaware (.ofTraced t : Action Memory α) :=
  ⟨fun _ _ => rfl, fun _ => noFailure_ok _⟩

namespace Unaware

theorem bind {act : Action Memory α} {next : α → Action Memory β} (h : Unaware act)
    (hnext : ∀ a, Unaware (next a)) : Unaware (act >>= next) := by
  constructor
  · intro m n
    have hframe := h.frame m n
    cases hresult : (act m).result with
    | error e =>
      have hresult' : (act (m.withLedger n)).result = .error e := by rw [hframe, hresult]
      rw [Action.bind_of_error hresult, Action.bind_of_error hresult', hframe]
    | ok a =>
      have hresult' : (act (m.withLedger n)).result = .ok a := by rw [hframe, hresult]
      rw [Action.bind_of_ok hresult, Action.bind_of_ok hresult', hframe]
      simp only [(hnext a).frame]
  · intro m
    rw [Action.result_bind]
    exact (h.harmless m).bind fun a => (hnext a).harmless _

theorem map {act : Action Memory α} (h : Unaware act) (f : α → β) : Unaware (f <$> act) := by
  rw [map_eq_pure_bind]
  exact h.bind fun a => unaware_pure (f a)

variable {act : Action Memory α} (h : Unaware act) (m : Memory)

include h

theorem withLedger_self : (act m).state.withLedger m = (act m).state :=
  (congrArg Outcome.state (h.frame m m)).symm

end Unaware

theorem unaware_onStore {act : Action Store α} (h : ∀ s, NoFailure (act s).result) :
    Unaware (onStore act) :=
  ⟨fun _ _ => rfl, fun m => h m.store⟩

theorem unaware_load (cls : ObjectClass) (uid : Uid) : Unaware (load cls uid) := by
  refine Unaware.bind (unaware_onStore fun _ => noFailure_ok _) fun found => ?_
  cases found with
  | none => exact unaware_pure none
  | some document =>
    refine Unaware.bind (unaware_ofExcept fun failure he => ?_) fun s => unaware_pure (some s)
    obtain ⟨fault, hfault⟩ := AttributeSet.blamesDocument_ofJson document _ he
    cases hfault

theorem unaware_loadExisting (cls : ObjectClass) (uid : Uid) : Unaware (loadExisting cls uid) := by
  refine (unaware_load cls uid).bind fun found => ?_
  cases found with
  | none => exact unaware_ofExcept (noFailure_objectNotFound _ _)
  | some s => exact unaware_pure s

theorem unaware_replaceValues (cls : ObjectClass) (uid : Uid)
    (current replacements : AttributeSet) :
    Unaware (replaceValues cls uid current replacements) :=
  (unaware_onStore fun _ => noFailure_ok ()).bind fun _ => unaware_pure uid

theorem noFailure_uid (text : String) : NoFailure (Uid.of? text) := by
  intro failure he
  obtain ⟨fault, hfault⟩ := Wire.blaming_uid text _ he
  cases hfault

theorem unaware_newUid (fresh : Nat → Uid) (attributes : AttributeSet) :
    Unaware (newUid fresh attributes) := by
  unfold newUid
  cases givenUid? attributes with
  | some text => exact unaware_ofExcept (noFailure_uid text)
  | none => exact ⟨fun _ _ => rfl, fun _ => noFailure_ok _⟩

theorem unaware_inserting (key : Store.Key) (document : Json) :
    Unaware (onStore (Store.inserting key document)) := by
  refine unaware_onStore fun s => ?_
  rw [(Store.inserting_eq s key document).1]
  split
  · intro failure h
    cases h
  · exact noFailure_ok ()

theorem unaware_deleting (key : Store.Key) : Unaware (onStore (Store.deleting key)) :=
  unaware_onStore fun _ => noFailure_ok _

theorem Unaware.entered {act : Action Memory α} (f : α → Reply) (h : Unaware act)
    {capabilities : Capabilities} {op : Operation} :
    ∃ body, Unaware body ∧ (f <$> (enter capabilities op >>= fun _ => act)) =
      (enter capabilities op >>= fun _ => body) :=
  ⟨f <$> act, h.map f, map_bind f _ _⟩

/-- A call of the resource is entered, and what follows has no part in the bookkeeping. -/
theorem exists_perform_eq (capabilities : Capabilities) (fresh : Nat → Uid) (r : Invocation) :
    ∃ body, Unaware body ∧ (connector capabilities fresh).perform r =
      (enter capabilities r.operation >>= fun _ => body) := by
  cases r with
  | create cls as o =>
    exact Unaware.entered Reply.uid ((unaware_newUid fresh as).bind fun _ =>
      (unaware_inserting _ _).bind fun _ => unaware_pure _)
  | getObject cls uid o =>
    refine Unaware.entered Reply.found ((unaware_load cls uid).bind fun found => ?_)
    cases found <;> exact unaware_pure _
  | update cls uid as o =>
    exact Unaware.entered Reply.uid ((unaware_loadExisting cls uid).bind fun current =>
      unaware_replaceValues cls uid current as)
  | changeValues mode cls uid vs o =>
    cases mode <;>
      exact Unaware.entered Reply.uid ((unaware_loadExisting cls uid).bind fun current =>
        unaware_replaceValues cls uid current _)
  | updateDelta cls uid ds o =>
    exact Unaware.entered Reply.effects ((unaware_loadExisting cls uid).bind fun current =>
      (unaware_ofTraced _).bind fun _ => (unaware_replaceValues cls uid current _).bind fun _ =>
        unaware_pure _)
  | delete cls uid o =>
    refine Unaware.entered (fun _ => Reply.done) ((unaware_deleting _).bind fun found => ?_)
    cases found with
    | false => exact unaware_ofExcept (noFailure_objectNotFound _ _)
    | true => exact unaware_pure ()

/-- The record that a call leaves when it is entered. -/
def entryRecord (op : Operation) : Event := .log .trace ("in-memory connector: " ++ op.label)

section

variable {capabilities : Capabilities} {op : Operation} {m : Memory}

theorem enter_of_unoffered (hs : capabilities.supports op = false) :
    enter capabilities op m = ⟨.error (.unsupported op), count op m, [entryRecord op]⟩ := by
  unfold enter Capabilities.require
  rw [hs]
  rfl

theorem enter_of_armed {failure : Store.Failure} (hs : capabilities.supports op = true)
    (harmed : m.armed op = some failure) :
    enter capabilities op m =
      ⟨.error (.connector failure), disarm op (count op m), [entryRecord op]⟩ := by
  have hcount : (count op m).armed op = some failure := harmed
  unfold enter Capabilities.require
  simp only [hs, ↓reduceIte, bind, Action.bind, Action.modify, Action.log, Action.get,
    Action.ofExcept, hcount]
  rfl

theorem enter_of_admits (h : Admits capabilities m op) :
    enter capabilities op m = ⟨.ok (), count op m, [entryRecord op]⟩ := by
  have hcount : (count op m).armed op = none := h.2
  unfold enter Capabilities.require
  simp only [h.1, ↓reduceIte, bind, Action.bind, Action.modify, Action.log, Action.get,
    Action.ofExcept, hcount]
  rfl

end

/-- What a call of an operation leads to, given the failure that awaits it, if any, and what the
same call leads to where nothing was ever counted or armed. -/
structure Accounted (capabilities : Capabilities) (op : Operation)
    (awaiting : Option Store.Failure) (m : Memory) (o calm : Outcome Memory Reply) : Prop where
  unoffered : capabilities.supports op = false →
    o.result = .error (.unsupported op) ∧ o.state = count op m
  injected : ∀ failure, capabilities.supports op = true → awaiting = some failure →
    o.result = .error (.connector failure) ∧ o.state = disarm op (count op m)
  unaffected : capabilities.supports op = true → awaiting = none →
    o = { calm with state := calm.state.withLedger (count op m) } ∧ NoFailure o.result

theorem Accounted.cases {capabilities : Capabilities} {op : Operation}
    {awaiting : Option Store.Failure} {m : Memory} {o calm : Outcome Memory Reply}
    (h : Accounted capabilities op awaiting m o calm) :
    (capabilities.supports op = false ∧ o.result = .error (.unsupported op) ∧
      o.state = count op m) ∨
    (∃ failure, capabilities.supports op = true ∧ awaiting = some failure ∧
      o.result = .error (.connector failure) ∧ o.state = disarm op (count op m)) ∨
    (capabilities.supports op = true ∧ awaiting = none ∧
      o = { calm with state := calm.state.withLedger (count op m) } ∧ NoFailure o.result) := by
  cases hs : capabilities.supports op with
  | false => exact .inl ⟨rfl, h.unoffered hs⟩
  | true =>
    cases hawaiting : awaiting with
    | some failure => exact .inr (.inl ⟨failure, rfl, rfl, h.injected failure hs hawaiting⟩)
    | none => exact .inr (.inr ⟨rfl, rfl, h.unaffected hs hawaiting⟩)

section

variable (capabilities : Capabilities) (fresh : Nat → Uid) (m : Memory)

theorem perform_accounted (r : Invocation) :
    Accounted capabilities r.operation (m.armed r.operation) m
      ((connector capabilities fresh).perform r m)
      ((connector capabilities fresh).perform r (m.withLedger empty)) := by
  obtain ⟨body, hbody, hperform⟩ := exists_perform_eq capabilities fresh r
  rw [hperform]
  constructor
  · intro hs
    have henter := enter_of_unoffered (m := m) hs
    rw [Action.bind_of_error (congrArg Outcome.result henter), henter]
    exact ⟨rfl, rfl⟩
  · intro failure hs harmed
    have henter := enter_of_armed hs harmed
    rw [Action.bind_of_error (congrArg Outcome.result henter), henter]
    exact ⟨rfl, rfl⟩
  · intro hs harmed
    have henter := enter_of_admits ⟨hs, harmed⟩
    have hcalm := enter_of_admits (m := m.withLedger empty) ⟨hs, rfl⟩
    rw [Action.bind_of_ok (congrArg Outcome.result henter),
      Action.bind_of_ok (congrArg Outcome.result hcalm), henter, hcalm]
    refine ⟨?_, hbody.harmless _⟩
    have hframe := hbody.frame (count r.operation m) (count r.operation (m.withLedger empty))
    have hself := hbody.withLedger_self (count r.operation m)
    dsimp only
    rw [show count r.operation (m.withLedger empty) =
      (count r.operation m).withLedger (count r.operation (m.withLedger empty)) from rfl, hframe]
    exact congrArg (Outcome.mk _ · _) hself.symm

/-- A call adds one to the count of its operation, whatever it answers. -/
theorem calls_perform (r : Invocation) (op : Operation) :
    ((connector capabilities fresh).perform r m).state.calls op =
      m.calls op + if op = r.operation then 1 else 0 := by
  rw [← calls_count]
  rcases (perform_accounted capabilities fresh m r).cases with
    ⟨-, -, hstate⟩ | ⟨failure, -, -, -, hstate⟩ | ⟨-, -, ho, -⟩
  · rw [hstate]
  · rw [hstate]
    rfl
  · rw [ho]
    rfl

/-- A call that is offered leaves no failure armed for its operation, and those for others as they
are. -/
theorem armed_perform (r : Invocation) (op : Operation) :
    ((connector capabilities fresh).perform r m).state.armed op =
      if op = r.operation ∧ capabilities.supports r.operation = true then none
      else m.armed op := by
  rcases (perform_accounted capabilities fresh m r).cases with
    ⟨hs, -, hstate⟩ | ⟨failure, hs, -, -, hstate⟩ | ⟨hs, harmed, ho, -⟩
  · rw [hstate, hs, if_neg fun h => Bool.false_ne_true h.2]
    rfl
  · rw [hstate, hs]
    simp only [disarm, and_true]
    rfl
  · rw [ho]
    show m.armed op = _
    split
    · rename_i h
      rw [h.1, harmed]
    · rfl

end

/-- One thing that happens to a resource: a failure is armed, the counts are reset, or a method is
called. -/
inductive Step where
  | arm (op : Operation) (failure : Store.Failure)
  | reset
  | call (r : Invocation)

namespace Step

def after (c : Connector Memory) : Step → Memory → Memory
  | .arm op failure, m => failNext op failure m
  | .reset, m => resetCalls m
  | .call r, m => (c.perform r m).state

def resets : Step → Bool
  | .reset => true
  | _ => false

/-- Whether a step calls an operation. -/
def invokes (op : Operation) : Step → Bool
  | .call r => op = r.operation
  | _ => false

/-- The failure that a step arms for an operation. -/
def armed? (op : Operation) : Step → Option Store.Failure
  | .arm o failure => if op = o then some failure else none
  | _ => none

/-- Whether a step decides if a failure is armed for an operation: it arms one, or is a call that is
offered. -/
def decides (capabilities : Capabilities) (op : Operation) : Step → Bool
  | .arm o _ => op = o
  | .reset => false
  | .call r => op = r.operation ∧ capabilities.supports r.operation = true

/-- The failure of a resource in an answer. -/
def failureOf? {α : Type} : Except Error α → Option Store.Failure
  | .error (.connector failure) => some failure
  | _ => none

/-- The failure that a step has a call of an operation answer. -/
def failed? (c : Connector Memory) (op : Operation) (m : Memory) : Step → Option Store.Failure
  | .call r => if op = r.operation then failureOf? (c.perform r m).result else none
  | _ => none

theorem failureOf?_eq_none {r : Except Error α} (h : NoFailure r) : failureOf? r = none := by
  unfold failureOf?
  split
  · exact absurd rfl (h _)
  · rfl

section

variable (capabilities : Capabilities) (fresh : Nat → Uid) (s : Step) (m : Memory) (op : Operation)

theorem calls_after : (s.after (connector capabilities fresh) m).calls op =
    (if s.resets then 0 else m.calls op) + if s.invokes op then 1 else 0 := by
  cases s with
  | arm o failure => rfl
  | reset => rfl
  | call r =>
    simp only [resets, invokes, decide_eq_true_eq, Bool.false_eq_true, ↓reduceIte]
    exact calls_perform capabilities fresh m r op

theorem armed_after : (s.after (connector capabilities fresh) m).armed op =
    if s.decides capabilities op then s.armed? op else m.armed op := by
  cases s with
  | arm o failure =>
    simp only [after, failNext, decides, armed?, decide_eq_true_eq]
    split <;> rfl
  | reset => rfl
  | call r =>
    simp only [decides, armed?, decide_eq_true_eq]
    exact armed_perform capabilities fresh m r op

/-- What a step answers and what it leaves armed comes from what was armed and what the step arms,
each failure at most once. -/
theorem failed_sublist :
    ((s.failed? (connector capabilities fresh) op m).toList ++
      ((s.after (connector capabilities fresh) m).armed op).toList).Sublist
        ((m.armed op).toList ++ (s.armed? op).toList) := by
  rw [armed_after]
  cases s with
  | arm o failure =>
    simp only [failed?, decides, decide_eq_true_eq]
    by_cases h : op = o
    · rw [if_pos h]
      exact List.sublist_append_right _ _
    · rw [if_neg h]
      exact List.sublist_append_left _ _
  | reset => exact List.sublist_append_left _ _
  | call r =>
    simp only [failed?, decides, armed?, decide_eq_true_eq, Option.toList_none, List.append_nil]
    by_cases h : op = r.operation
    · subst h
      rw [if_pos rfl]
      rcases (perform_accounted capabilities fresh m r).cases with
        ⟨hs, hresult, -⟩ | ⟨failure, hs, harmed, hresult, -⟩ | ⟨hs, -, -, hharmless⟩
      · rw [hresult, hs, if_neg fun h => Bool.false_ne_true h.2]
        exact List.Sublist.refl _
      · rw [hresult, hs, if_pos ⟨rfl, rfl⟩, harmed]
        exact List.Sublist.refl _
      · rw [failureOf?_eq_none hharmless, hs, if_pos ⟨rfl, rfl⟩]
        exact List.nil_sublist _
    · rw [if_neg h, if_neg fun hboth => h hboth.1]
      exact List.Sublist.refl _

end

end Step

/-- The memory after steps, one after the other. -/
def replay (c : Connector Memory) (steps : List Step) (m : Memory) : Memory :=
  steps.foldl (fun m s => s.after c m) m

/-- The number of calls of an operation since the last reset. -/
def invocations (op : Operation) (steps : List Step) : Nat :=
  (steps.reverse.takeWhile fun s => !s.resets).countP (Step.invokes op)

/-- The failure that the next call of an operation meets: the one that was armed last, unless a call
that is offered has come since. -/
def awaiting (capabilities : Capabilities) (op : Operation) (steps : List Step) :
    Option Store.Failure :=
  (steps.reverse.find? (Step.decides capabilities op)).bind (Step.armed? op)

/-- The failures armed for an operation, in their order. -/
def armings (op : Operation) (steps : List Step) : List Store.Failure :=
  steps.flatMap fun s => (s.armed? op).toList

/-- The failures that the calls of an operation answer, in their order. -/
def failures (c : Connector Memory) (op : Operation) : List Step → Memory → List Store.Failure
  | [], _ => []
  | s :: steps, m => (s.failed? c op m).toList ++ failures c op steps (s.after c m)

section

variable (capabilities : Capabilities) (fresh : Nat → Uid)

theorem replay_singleton (c : Connector Memory) (s : Step) (m : Memory) :
    replay c [s] m = s.after c m :=
  rfl

theorem replay_append (c : Connector Memory) (steps steps' : List Step) (m : Memory) :
    replay c (steps ++ steps') m = replay c steps' (replay c steps m) :=
  List.foldl_append

theorem replay_calls {m : Memory} (hm : ∀ op, m.calls op = 0) (steps : List Step)
    (op : Operation) :
    (replay (connector capabilities fresh) steps m).calls op = invocations op steps := by
  induction steps using List.reverseRecOn with
  | nil => exact hm op
  | append_singleton steps s ih =>
    rw [replay_append, replay_singleton, Step.calls_after, ih, invocations, invocations,
      List.reverse_concat, List.takeWhile_cons]
    cases hresets : s.resets with
    | false => exact List.countP_cons.symm
    | true =>
      cases s with
      | reset => rfl
      | _ => cases hresets

theorem replay_armed {m : Memory} (hm : Unarmed m) (steps : List Step)
    (op : Operation) :
    (replay (connector capabilities fresh) steps m).armed op = awaiting capabilities op steps := by
  induction steps using List.reverseRecOn with
  | nil => exact hm op
  | append_singleton steps s ih =>
    rw [replay_append, replay_singleton, Step.armed_after, ih, awaiting, awaiting,
      List.reverse_concat, List.find?_cons]
    cases s.decides capabilities op <;> rfl

/-- What is answered of the failures for an operation was armed before or during the steps, each
at most once. -/
theorem failures_sublist (op : Operation) (steps : List Step) (m : Memory) :
    (failures (connector capabilities fresh) op steps m).Sublist
      ((m.armed op).toList ++ armings op steps) := by
  induction steps generalizing m with
  | nil => exact List.nil_sublist _
  | cons s steps ih =>
    rw [failures, armings, List.flatMap_cons, ← List.append_assoc]
    have hrest := ih (s.after (connector capabilities fresh) m)
    have hstep := Step.failed_sublist capabilities fresh s m op
    refine (hrest.append_left _).trans ?_
    rw [← List.append_assoc]
    exact hstep.append_right _

end

/-- One thing that a user of a resource does. -/
inductive Act where
  | failNext (op : Operation) (failure : Store.Failure)
  | resetCalls
  | demand (d : Demand)

namespace Act

def after (c : Connector Memory) : Act → Memory → Memory
  | .failNext op failure, m => Memory.failNext op failure m
  | .resetCalls, m => Memory.resetCalls m
  | .demand d, m => (d.perform c m).state

/-- The steps that an act comes down to: a demand, to the calls that it makes. -/
def steps (c : Connector Memory) (m : Memory) : Act → List Step
  | .failNext op failure => [.arm op failure]
  | .resetCalls => [.reset]
  | .demand d => (d.calls c m).map .call

/-- The failure that an act arms for an operation. -/
def armed? (op : Operation) : Act → Option Store.Failure
  | .failNext o failure => if op = o then some failure else none
  | _ => none

theorem armings_steps (c : Connector Memory) (op : Operation) (m : Memory) (a : Act) :
    armings op (a.steps c m) = (a.armed? op).toList := by
  cases a with
  | failNext o failure => exact List.append_nil _
  | resetCalls => rfl
  | demand d =>
    rw [armings, steps, List.flatMap_map]
    exact List.flatMap_eq_nil_iff.2 fun _ _ => rfl

theorem replay_steps (c : Connector Memory) (m : Memory) (a : Act) :
    replay c (a.steps c m) m = a.after c m := by
  cases a with
  | failNext op failure => rfl
  | resetCalls => rfl
  | demand d =>
    rw [replay, steps, List.foldl_map]
    exact ((d.course c m).state_eq).symm

end Act

/-- The memory after acts, one after the other. -/
def run (c : Connector Memory) (acts : List Act) (m : Memory) : Memory :=
  acts.foldl (fun m a => a.after c m) m

/-- The steps that acts come down to. -/
def history (c : Connector Memory) : List Act → Memory → List Step
  | [], _ => []
  | a :: acts, m => a.steps c m ++ history c acts (a.after c m)

theorem replay_history (c : Connector Memory) (acts : List Act) (m : Memory) :
    replay c (history c acts m) m = run c acts m := by
  induction acts generalizing m with
  | nil => rfl
  | cons a acts ih =>
    rw [history, replay_append, a.replay_steps, ih]
    rfl

theorem armings_history (c : Connector Memory) (op : Operation) (acts : List Act) (m : Memory) :
    armings op (history c acts m) = acts.flatMap fun a => (a.armed? op).toList := by
  induction acts generalizing m with
  | nil => rfl
  | cons a acts ih =>
    rw [history, armings, List.flatMap_append, ← armings, ← armings, Act.armings_steps, ih,
      List.flatMap_cons]

/-- Where a demand would be met by a look-up and a replacement, a look-up that is to fail is the
only call that it makes, if it makes any. -/
theorem calls_of_armed_lookUp (capabilities : Capabilities) (fresh : Nat → Uid) (m : Memory)
    {d : Demand} {failure : Store.Failure} (hemulated : d.Emulated capabilities)
    (hs : capabilities.supports .search = true) (harmed : m.armed .search = some failure) :
    let c := connector capabilities fresh
    d.calls c m = [] ∨ ∃ call, d.calls c m = [call] ∧ call.operation = .search ∧
      (d.perform c m).result = .error (.connector failure) := by
  intro c
  have hcourse := d.course c m
  have hfirst := d.looksUpFirst c m hemulated
  cases hcalls : d.calls c m with
  | nil => exact .inl rfl
  | cons call rest =>
    rw [hcalls] at hcourse hfirst
    have hop : call.operation = .search := hfirst call rfl
    have haccounted := perform_accounted capabilities fresh m call
    rw [hop] at haccounted
    have hfails := (haccounted.injected failure hs harmed).1
    obtain ⟨hrest, hresult, -⟩ := hcourse.of_first_error hfails
    exact .inr ⟨call, by rw [hrest], hop, hresult⟩

/-- Whatever the resource offers and holds, its counts and armed failures are what the steps so far
say. A call that is offered answers the failure that awaits it, and disarms it; one that is not
offered leaves it; every other call does what it would do had nothing been counted or armed. Acts
come down to such steps, and each failure that they arm is answered at most once. What is demanded
makes its calls in turn and fails with the error of the last; where it is met by a look-up and a
replacement, a failure that awaits the look-up is the end of it. -/
theorem failures_and_counts_exact (capabilities : Capabilities) (fresh : Nat → Uid)
    {start : Memory} (huncounted : ∀ op, start.calls op = 0) (hunarmed : Unarmed start) :
    let c := connector capabilities fresh
    (∀ steps,
      let m := replay c steps start
      (∀ op, m.calls op = invocations op steps ∧ m.armed op = awaiting capabilities op steps) ∧
      ∀ r, Accounted capabilities r.operation (awaiting capabilities r.operation steps) m
        (c.perform r m) (c.perform r (m.withLedger empty))) ∧
    (∀ failure, (Error.connector failure).message = some failure.message) ∧
    ∀ acts,
      let steps := history c acts start
      let m := run c acts start
      m = replay c steps start ∧
      (∀ op, (failures c op steps start).Sublist (acts.flatMap fun a => (a.armed? op).toList)) ∧
      ∀ d : Demand,
        Course c m (d.calls c m) (d.perform c m).result (d.perform c m).state ∧
        ∀ failure, d.Emulated capabilities → capabilities.supports .search = true →
          awaiting capabilities .search steps = some failure →
          d.calls c m = [] ∨ ∃ call, d.calls c m = [call] ∧ call.operation = .search ∧
            (d.perform c m).result = .error (.connector failure) := by
  intro c
  have harmed := replay_armed capabilities fresh hunarmed
  refine ⟨fun steps => ⟨fun op => ⟨?_, harmed steps op⟩, fun r => ?_⟩, fun _ => rfl,
    fun acts => ⟨(replay_history c acts start).symm, fun op => ?_, fun d => ⟨d.course c _, ?_⟩⟩⟩
  · exact replay_calls capabilities fresh huncounted steps op
  · rw [← harmed steps r.operation]
    exact perform_accounted capabilities fresh _ r
  · have hsublist := failures_sublist capabilities fresh op (history c acts start) start
    rwa [hunarmed op, armings_history] at hsublist
  · intro failure hemulated hs hawaiting
    rw [← harmed, replay_history] at hawaiting
    exact calls_of_armed_lookUp capabilities fresh _ hemulated hs hawaiting

def rearmed : List Act :=
  [.failNext .search (.unavailable "down"), .failNext .search (.unavailable "gone")]

def extended : Demand :=
  .request .default (.changeValues .add .account bob (mail ["bob@home"]) .default)

/-- Look-ups are armed to fail twice before an address is added by way of a replacement. -/
theorem rearmed_fails_once :
    let c := connector .replaceOnly fun _ => bob
    let m := run c rearmed (withMail ["bob@work"])
    let m' := run c (rearmed ++ [.demand extended]) (withMail ["bob@work"])
    (extended.perform c m).result = .error (.connector (.unavailable "gone")) ∧
      (∀ call ∈ extended.calls c m, call.operation = .search) ∧
      m'.calls .search = 1 ∧ m'.calls .update = 0 ∧ m'.armed .search = none := by
  intro c m m'
  have huncounted : ∀ op, (withMail ["bob@work"]).calls op = 0 := fun _ => rfl
  have hunarmed : Unarmed (withMail ["bob@work"]) := fun _ => rfl
  obtain ⟨hsteps, -, hacts⟩ :=
    failures_and_counts_exact .replaceOnly (fun _ => bob) huncounted hunarmed
  have hreplay : m' = replay c (history c (rearmed ++ [.demand extended]) (withMail ["bob@work"]))
      (withMail ["bob@work"]) := (hacts _).1
  have hcounts := (hsteps (history c (rearmed ++ [.demand extended]) (withMail ["bob@work"]))).1
  have hdemand := ((hacts rearmed).2.2 extended).2 (.unavailable "gone") rfl rfl rfl
  rw [hreplay]
  refine ⟨?_, ?_, (hcounts .search).1, (hcounts .update).1, (hcounts .search).2⟩
  · rcases hdemand with hnone | ⟨call, -, -, hresult⟩
    · cases hnone
    · exact hresult
  · rcases hdemand with hnone | ⟨call, hcalls, hop, -⟩
    · cases hnone
    · intro call' hcall'
      rw [hcalls, List.mem_singleton] at hcall'
      rw [hcall', hop]

end Provisioning.Memory
