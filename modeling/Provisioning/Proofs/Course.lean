import Provisioning.Proofs.Rejection

/-!
# What a demand comes down to

A resource is asked for something through its connector, through a facade in front of it, or through
reconciliation. Whatever is asked comes down to calls of the connector, each in the state that the
one before it left. A call that fails is the last one, and the demand fails with its error,
unchanged; no demand fails as a resource does unless a call has (`Demand.course`).
-/
namespace Provisioning

variable {σ α β : Type}

/-- A result that is not the failure of a resource. -/
def NoFailure (r : Except Error α) : Prop := ∀ failure, r ≠ .error (.connector failure)

theorem noFailure_ok (a : α) : NoFailure (.ok a : Except Error α) := by
  intro failure h
  cases h

theorem noFailure_unsupported (op : Operation) :
    NoFailure (.error (.unsupported op) : Except Error α) := by
  intro failure h
  cases h

theorem noFailure_objectNotFound (cls uid : String) :
    NoFailure (.error (.objectNotFound cls uid) : Except Error α) := by
  intro failure h
  cases h

theorem NoFailure.bind {r : Except Error α} {next : α → Except Error β} (h : NoFailure r)
    (hnext : ∀ a, NoFailure (next a)) : NoFailure (r >>= next) := by
  cases r with
  | error e =>
    intro failure hr
    cases hr
    exact h failure rfl
  | ok a => exact hnext a

theorem noFailure_require (capabilities : Capabilities) (op : Operation) :
    NoFailure (capabilities.require op) := by
  rw [Capabilities.require]
  split
  · exact noFailure_ok ()
  · exact noFailure_unsupported op

theorem noFailure_requireFetchAndReplace (capabilities : Capabilities) :
    NoFailure capabilities.requireFetchAndReplace :=
  (noFailure_require capabilities .search).bind fun _ => noFailure_require capabilities .update

theorem noFailure_select (capabilities : Capabilities) : NoFailure (Path.select capabilities) := by
  rw [Path.select]
  split
  · exact noFailure_ok _
  · exact (noFailure_requireFetchAndReplace capabilities).bind fun _ => noFailure_ok _

theorem noFailure_check (config : Config) (r : Invocation) : NoFailure (config.check r) := by
  have hblames := Blames.check config r
  intro failure he
  by_cases hbarred : r.Barred config
  · obtain ⟨fault, hfault⟩ := hblames.refused hbarred
    rw [hfault] at he
    cases he
  · rw [hblames.passed hbarred] at he
    cases he

/-- Calls of a connector, made in turn from a state: the result, and the state in the end. All but
the last succeed; if the last fails, its error is the result. -/
inductive Course (c : Connector σ) : σ → List Invocation → Except Error α → σ → Prop where
  | done {s : σ} {r : Except Error α} (h : NoFailure r) : Course c s [] r s
  | failed {s : σ} {call : Invocation} {e : Error} (h : (c.perform call s).result = .error e) :
    Course c s [call] (.error e) (c.perform call s).state
  | passed {s s' : σ} {call : Invocation} {reply : Reply} {calls : List Invocation}
    {r : Except Error α} (h : (c.perform call s).result = .ok reply)
    (rest : Course c (c.perform call s).state calls r s') : Course c s (call :: calls) r s'

namespace Course

variable {c : Connector σ} {s s' : σ} {calls : List Invocation} {r : Except Error α}

/-- After an error nothing follows, whatever it was to be the result of. -/
theorem error {e : Error} (h : Course c s calls r s') (he : r = .error e) :
    Course c s calls (.error e : Except Error β) s' := by
  induction h with
  | done h =>
    subst he
    exact .done fun failure hr => h failure (by cases hr; rfl)
  | failed h =>
    cases he
    exact .failed h
  | passed h _ ih => exact .passed h (ih he)

theorem append {s'' : σ} {a : α} {calls' : List Invocation} {r' : Except Error β}
    (h : Course c s calls r s') (ha : r = .ok a) (h' : Course c s' calls' r' s'') :
    Course c s (calls ++ calls') r' s'' := by
  induction h with
  | done h => exact h'
  | failed h => cases ha
  | passed h _ ih => exact .passed h (ih ha h')

/-- The state in the end is the one that the calls lead to. -/
theorem state_eq (h : Course c s calls r s') :
    s' = calls.foldl (fun s call => (c.perform call s).state) s := by
  induction h with
  | done => rfl
  | failed => rfl
  | passed _ _ ih => exact ih

/-- A first call that fails is the only one. -/
theorem of_first_error {call : Invocation} {e : Error} (h : Course c s (call :: calls) r s')
    (he : (c.perform call s).result = .error e) :
    calls = [] ∧ r = .error e ∧ s' = (c.perform call s).state := by
  cases h with
  | failed h =>
    rw [he] at h
    cases h
    exact ⟨rfl, rfl, rfl⟩
  | passed h =>
    rw [he] at h
    cases h

end Course

/-- An action on an observed resource makes calls in turn and nothing else. -/
def Relays (c : Connector σ) (act : Action (Observation σ) α) : Prop :=
  ∀ s before, ∃ calls, (act ⟨s, before⟩).state.calls = before ++ calls ∧
    Course c s calls (act ⟨s, before⟩).result (act ⟨s, before⟩).state.resource

section

variable {c : Connector σ}

theorem relays_ofExcept {r : Except Error α} (h : NoFailure r) :
    Relays c (.ofExcept r : Action (Observation σ) α) :=
  fun _ before => ⟨[], (List.append_nil before).symm, .done h⟩

theorem relays_ofTraced (t : Traced α) : Relays c (.ofTraced t : Action (Observation σ) α) :=
  fun _ before => ⟨[], (List.append_nil before).symm, .done (noFailure_ok _)⟩

theorem relays_pure (a : α) : Relays c (pure a : Action (Observation σ) α) :=
  relays_ofExcept (noFailure_ok a)

namespace Relays

theorem bind {act : Action (Observation σ) α} {next : α → Action (Observation σ) β}
    (h : Relays c act) (hnext : ∀ a, Relays c (next a)) : Relays c (act >>= next) := by
  intro s before
  obtain ⟨calls, hcalls, hcourse⟩ := h s before
  cases hact : (act ⟨s, before⟩).result with
  | error e =>
    rw [Action.bind_of_error hact]
    exact ⟨calls, hcalls, hcourse.error hact⟩
  | ok a =>
    rw [Action.bind_of_ok hact]
    obtain ⟨calls', hcalls', hcourse'⟩ :=
      hnext a (act ⟨s, before⟩).state.resource (act ⟨s, before⟩).state.calls
    refine ⟨calls ++ calls', ?_, hcourse.append hact hcourse'⟩
    rw [← List.append_assoc, ← hcalls]
    exact hcalls'

theorem map {act : Action (Observation σ) α} (h : Relays c act) (f : α → β) :
    Relays c (f <$> act) := by
  rw [map_eq_pure_bind]
  exact h.bind fun a => relays_pure (f a)

theorem of_sameEffects {act act' : Action (Observation σ) α} (h : Relays c act')
    (heffects : Action.SameEffects act act') : Relays c act := by
  intro s before
  obtain ⟨hresult, hstate⟩ := heffects ⟨s, before⟩
  rw [hresult, hstate]
  exact h s before

end Relays

/-- A method of the observed connector makes the call that it notes. -/
theorem relays_noted {call : Invocation} {act : Action σ α} {f : α → Reply}
    (hcall : c.perform call = f <$> act) : Relays c (Connector.noted call act) := by
  intro s before
  have hresult : (c.perform call s).result = (act s).result.map f := by
    rw [hcall, Action.result_map]
  have hstate : (c.perform call s).state = (act s).state := by
    rw [hcall, Action.state_map]
  refine ⟨[call], rfl, ?_⟩
  show Course c s [call] (act s).result (act s).state
  rw [← hstate]
  cases hact : (act s).result with
  | error e => exact .failed (by rw [hresult, hact]; rfl)
  | ok a => exact .passed (by rw [hresult, hact]; rfl) (.done (noFailure_ok a))

end

section

variable (c : Connector σ) (cls : ObjectClass) (uid : Uid) (options : Options)

theorem Connector.relays_perform (r : Invocation) : Relays c (c.observed.perform r) := by
  cases r with
  | changeValues mode cls uid vs o => cases mode <;> exact (relays_noted rfl).map _
  | _ => exact (relays_noted rfl).map _

theorem relays_fetchAttributes (names : List String) :
    Relays c (fetchAttributes c.observed cls uid names options) := by
  refine Relays.bind (relays_noted rfl) fun found => ?_
  cases found with
  | none => exact relays_ofExcept (noFailure_objectNotFound _ _)
  | some record => exact relays_pure _

theorem relays_reconcile (changes : AttributeSet) (mode : UpdateMode) :
    Relays c (reconcile c.observed cls uid changes mode options) := by
  refine (relays_ofExcept (noFailure_select c.capabilities)).bind fun path => ?_
  cases path with
  | native => cases mode <;> exact relays_noted rfl
  | fetchAndMerge =>
    exact (relays_fetchAttributes c cls uid options _).bind fun _ => relays_noted rfl

theorem relays_reconcileDeltas (deltas : DeltaSet) :
    Relays c (reconcileDeltas c.observed cls uid deltas options) :=
  (relays_ofExcept (noFailure_requireFetchAndReplace c.capabilities)).bind fun _ =>
    (relays_fetchAttributes c cls uid options _).bind fun _ =>
      (relays_ofTraced _).bind fun _ => (relays_noted rfl).bind fun _ => relays_pure _

theorem Facade.relays_dispatch (f : Facade σ) (r : Invocation) :
    Relays f.connector (f.observed.dispatch r) := by
  cases r with
  | changeValues mode cls uid vs o => exact (relays_reconcile f.connector cls uid o vs mode).map _
  | updateDelta cls uid ds o =>
    rw [dispatch]
    split
    · exact f.connector.relays_perform _
    · split
      · exact (relays_reconcileDeltas f.connector cls uid o ds).map _
      · exact relays_ofExcept (noFailure_unsupported _)
  | _ =>
    exact (relays_ofExcept (noFailure_require _ _)).bind fun _ => f.connector.relays_perform _

theorem Facade.relays_perform (f : Facade σ) (r : Invocation) :
    Relays f.connector (f.observed.perform r) :=
  ((relays_ofExcept (noFailure_check f.config r)).bind fun _ =>
    f.relays_dispatch r).of_sameEffects (f.observed.perform_effects r)

end

/-- A list of calls of which the first, if there is any, is a look-up. -/
def LooksUpFirst (calls : List Invocation) : Prop :=
  ∀ call ∈ calls.head?, call.operation = .search

theorem LooksUpFirst.nil : LooksUpFirst [] := fun _ h => nomatch h

theorem WritesBack.looksUpFirst {c : Connector σ} {cls : ObjectClass} {uid : Uid}
    {names : List String} {options : Options} {payload : AttributeSet → AttributeSet} {s s' : σ}
    {calls : List Invocation} {result : Except Error Uid}
    (h : WritesBack c cls uid names options payload s calls result s') : LooksUpFirst calls := by
  cases h with
  | noSearch => exact .nil
  | noUpdate => exact .nil
  | failed | absent | replaced =>
    intro call hcall
    cases hcall
    rfl

section

variable (c : Connector σ) (cls : ObjectClass) (uid : Uid) (options : Options) (s : σ)

theorem looksUpFirst_reconcile (mode : UpdateMode) (changes : AttributeSet)
    (h : c.capabilities.supports .updateAttributeValues = false) :
    LooksUpFirst (reconcile c.observed cls uid changes mode options ⟨s, []⟩).state.calls := by
  obtain ⟨calls, hcalls, hways⟩ := calls_reconcile c cls uid options mode changes s []
  rw [h] at hways
  rw [hcalls]
  exact hways.looksUpFirst

theorem looksUpFirst_reconcileDeltas (deltas : DeltaSet) :
    LooksUpFirst (reconcileDeltas c.observed cls uid deltas options ⟨s, []⟩).state.calls := by
  obtain ⟨calls, result, hcalls, -, hways⟩ := calls_reconcileDeltas c cls uid options deltas s []
  rw [hcalls]
  exact hways.looksUpFirst

end

/-- Whether a request of a facade takes, on a resource of such capabilities, a look-up and a
replacement. -/
def Invocation.Emulated (capabilities : Capabilities) : Invocation → Prop
  | .changeValues .. => capabilities.supports .updateAttributeValues = false
  | .updateDelta .. => capabilities.supports .complexUpdateDelta = false
  | _ => False

namespace Facade

variable {f : Facade σ} {r : Invocation} (h : r.Emulated f.connector.capabilities) (s : σ)

include h

theorem looksUpFirst_dispatch : LooksUpFirst (f.observed.dispatch r ⟨s, []⟩).state.calls := by
  cases r with
  | changeValues mode cls uid vs o =>
    rw [dispatch, Action.state_map]
    exact looksUpFirst_reconcile f.connector cls uid o s mode vs h
  | updateDelta cls uid ds o =>
    have hnative : f.observed.connector.capabilities.supports .complexUpdateDelta = false := h
    simp only [dispatch, hnative, Bool.false_eq_true, ↓reduceIte]
    split
    · rw [Action.state_map]
      exact looksUpFirst_reconcileDeltas f.connector cls uid o s ds
    · exact .nil
  | _ => cases h

/-- A request that is barred makes no call at all. -/
theorem looksUpFirst_perform : LooksUpFirst (f.observed.perform r ⟨s, []⟩).state.calls := by
  by_cases hbarred : r.Barred f.config
  · rw [(perform_of_barred (f := f.observed) hbarred ⟨s, []⟩).2]
    exact .nil
  · rw [(perform_of_not_barred (f := f.observed) hbarred ⟨s, []⟩).2]
    exact looksUpFirst_dispatch h s

end Facade

/-- What can be asked for: a call of the connector itself, a request of a facade with some
configuration, or the reconciliation of changes or of deltas. -/
inductive Demand where
  | call (r : Invocation)
  | request (config : Config) (r : Invocation)
  | reconcile (objectClass : ObjectClass) (uid : Uid) (changes : AttributeSet) (mode : UpdateMode)
      (options : Options)
  | reconcileDeltas (objectClass : ObjectClass) (uid : Uid) (deltas : DeltaSet) (options : Options)

namespace Demand

def perform (c : Connector σ) : Demand → Action σ Reply
  | .call r => c.perform r
  | .request config r => (Facade.mk c config).perform r
  | .reconcile cls uid changes mode o =>
    Reply.uid <$> Provisioning.reconcile c cls uid changes mode o
  | .reconcileDeltas cls uid deltas o =>
    Reply.effects <$> Provisioning.reconcileDeltas c cls uid deltas o

/-- The calls that a demand makes of a connector in a state. -/
def calls (c : Connector σ) (d : Demand) (s : σ) : List Invocation :=
  (d.perform c.observed ⟨s, []⟩).state.calls

/-- Whether a demand is met, on a resource of such capabilities, by a look-up and a replacement. -/
def Emulated (capabilities : Capabilities) : Demand → Prop
  | .call _ => False
  | .request _ r => r.Emulated capabilities
  | .reconcile .. => capabilities.supports .updateAttributeValues = false
  | .reconcileDeltas .. => True

section

variable (c : Connector σ) (d : Demand) (s : σ)

theorem mirrors : Mirrors (d.perform c.observed) (d.perform c) := by
  cases d with
  | call r =>
    cases r with
    | changeValues mode cls uid vs o => cases mode <;> exact (Connector.mirrors_noted _ _).map _
    | _ => exact (Connector.mirrors_noted _ _).map _
  | request config r => exact (Facade.mk c config).mirrors_perform r
  | reconcile cls uid changes mode o => exact (mirrors_reconcile c cls uid o mode changes).map _
  | reconcileDeltas cls uid deltas o => exact (mirrors_reconcileDeltas c cls uid o deltas).map _

theorem relays : Relays c (d.perform c.observed) := by
  cases d with
  | call r => exact c.relays_perform r
  | request config r => exact (Facade.mk c config).relays_perform r
  | reconcile cls uid changes mode o => exact (relays_reconcile c cls uid o changes mode).map _
  | reconcileDeltas cls uid deltas o => exact (relays_reconcileDeltas c cls uid o deltas).map _

/-- A demand comes down to the calls that it is observed to make. -/
theorem course : Course c s (d.calls c s) (d.perform c s).result (d.perform c s).state := by
  obtain ⟨calls, hcalls, hcourse⟩ := d.relays c s []
  have hmirrors := d.mirrors c
  rw [List.nil_append] at hcalls
  rw [hmirrors.result, hmirrors.resource, ← hcalls] at hcourse
  exact hcourse

theorem looksUpFirst (h : d.Emulated c.capabilities) : LooksUpFirst (d.calls c s) := by
  cases d with
  | call r => cases h
  | reconcile cls uid changes mode o =>
    rw [calls, perform, Action.state_map]
    exact looksUpFirst_reconcile c cls uid o s mode changes h
  | reconcileDeltas cls uid deltas o =>
    rw [calls, perform, Action.state_map]
    exact looksUpFirst_reconcileDeltas c cls uid o s deltas
  | request config r => exact Facade.looksUpFirst_perform (f := ⟨c, config⟩) h s

end

end Demand

end Provisioning
