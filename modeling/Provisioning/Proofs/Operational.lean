import Provisioning.Proofs.Rejection

/-!
# Operational attributes and deltas

The facade refuses to add values to an operational attribute, or to remove any, before it calls the
connector. It does not look at the operational attributes when it is given deltas: these are refused
only for their class or for the identifier, and otherwise go to the resource with whatever they say
of operational attributes (`deltas_refused_iff`).
-/
namespace Provisioning

variable {σ : Type}

namespace Facade

/-- Whether a request is refused as an invalid argument, with no method of the connector called. -/
def Refuses (f : Facade σ) (r : Invocation) (s : σ) (before : List Invocation) : Prop :=
  (∃ fault, (f.observed.perform r ⟨s, before⟩).result = .error (.invalidArgument fault)) ∧
    (f.observed.perform r ⟨s, before⟩).state.calls = before

/-- Exactly the requests that are barred are refused before any call. -/
theorem refuses_iff_barred (f : Facade σ) (r : Invocation) (s : σ) (before : List Invocation) :
    f.Refuses r s before ↔ r.Barred f.config := by
  constructor
  · rintro ⟨⟨fault, hresult⟩, hcalls⟩
    by_contra hbarred
    cases hmissing : r.missing f.connector.capabilities f.config with
    | some op =>
      have hunsupported := (perform_of_missing (f := f.observed) hbarred hmissing ⟨s, before⟩).1
      rw [hresult] at hunsupported
      cases hunsupported
    | none =>
      obtain ⟨call, calls, hdispatched⟩ := calls_dispatch hmissing s before
      rw [← (perform_of_not_barred (f := f.observed) hbarred ⟨s, before⟩).2, hcalls] at hdispatched
      cases List.self_eq_append_right.1 hdispatched
  · intro h
    obtain ⟨hresult, hstate⟩ := perform_of_barred (f := f.observed) h ⟨s, before⟩
    exact ⟨hresult, congrArg Observation.calls hstate⟩

section

variable (f : Facade σ) {cls : ObjectClass} {uid : Uid} {ds : DeltaSet} {options : Options}

/-- Deltas that are not refused go to a resource that offers them as they are. -/
theorem calls_of_native_deltas
    (hbarred : ¬ (Invocation.updateDelta cls uid ds options).Barred f.config)
    (hnative : f.connector.capabilities.supports .complexUpdateDelta = true) (s : σ)
    (before : List Invocation) :
    (f.observed.perform (.updateDelta cls uid ds options) ⟨s, before⟩).state.calls =
      before ++ [.updateDelta cls uid ds options] := by
  rw [(perform_of_not_barred (f := f.observed) hbarred ⟨s, before⟩).2]
  have hdispatch : f.observed.dispatch (.updateDelta cls uid ds options) =
      f.connector.observed.perform (.updateDelta cls uid ds options) := if_pos hnative
  rw [hdispatch, Connector.calls_perform]

/-- Deltas that are not refused are written back, as they are, to one that does not. -/
theorem calls_of_emulated_deltas
    (hbarred : ¬ (Invocation.updateDelta cls uid ds options).Barred f.config)
    (hnative : f.connector.capabilities.supports .complexUpdateDelta = false)
    (hemulate : f.config.emulateDeltas = true) (s : σ) (before : List Invocation) :
    let o := f.observed.perform (.updateDelta cls uid ds options) ⟨s, before⟩
    ∃ calls result, o.state.calls = before ++ calls ∧
      WritesBack f.connector cls uid ds.names options (deltaPayload ds) s calls result
        o.state.resource := by
  intro o
  have hdispatch : f.observed.dispatch (.updateDelta cls uid ds options) =
      Reply.effects <$> reconcileDeltas f.connector.observed cls uid ds options := by
    show (if f.connector.capabilities.supports .complexUpdateDelta then _
      else if f.config.emulateDeltas then _ else _) = _
    rw [hnative, hemulate]
    rfl
  have hstate : o.state =
      (reconcileDeltas f.connector.observed cls uid ds options ⟨s, before⟩).state := by
    rw [(perform_of_not_barred (f := f.observed) hbarred ⟨s, before⟩).2, hdispatch,
      Action.state_map]
  obtain ⟨calls, result, hcalls, -, hways⟩ :=
    calls_reconcileDeltas f.connector cls uid options ds s before
  rw [← hstate] at hcalls hways
  exact ⟨calls, result, hcalls, hways⟩

end

end Facade

/-- Changes of single values of an operational attribute are refused before any call. Deltas are
refused so exactly if their class stands for every class or one of them is for the identifier; all
others go to the resource as they are, by either path. Which attributes are operational makes no
difference to them. -/
theorem deltas_refused_iff (c : Connector σ) (config : Config) (s : σ)
    (before : List Invocation) :
    (∀ mode cls uid vs options, (∃ n ∈ vs.names, config.isOperational n = true) →
      (Facade.mk c config).Refuses (.changeValues mode cls uid vs options) s before) ∧
    ∀ cls uid ds options,
      let r := Invocation.updateDelta cls uid ds options
      let refused := Text.fold cls.text = Text.fold "__ALL__" ∨
        ∃ n ∈ ds.names, Text.fold n = Text.fold uidName
      let o := (Facade.mk c config).observed.perform r ⟨s, before⟩
      ((Facade.mk c config).Refuses r s before ↔ refused) ∧
      (¬ refused → c.capabilities.supports .complexUpdateDelta = true →
        o.state.calls = before ++ [r]) ∧
      (¬ refused → c.capabilities.supports .complexUpdateDelta = false →
        config.emulateDeltas = true →
        ∃ calls result, o.state.calls = before ++ calls ∧
          WritesBack c cls uid ds.names options
            (fun base => (ds.applyTo base).restrict ds.names) s calls result o.state.resource) ∧
      ∀ names, (Facade.mk c { config with operational := names }).perform r =
        (Facade.mk c config).perform r := by
  refine ⟨fun mode cls uid vs options h => ?_, fun cls uid ds options => ⟨?_, ?_, ?_, ?_⟩⟩
  · exact (Facade.refuses_iff_barred _ _ s before).2 (.inr (.inr h))
  · exact Facade.refuses_iff_barred (Facade.mk c config) (.updateDelta cls uid ds options) s before
  · exact fun hrefused hnative =>
      (Facade.mk c config).calls_of_native_deltas hrefused hnative s before
  · exact fun hrefused hnative hemulate =>
      (Facade.mk c config).calls_of_emulated_deltas hrefused hnative hemulate s before
  · exact fun _ => rfl

/-- Whether a delta adds single values or deletes some. -/
def Delta.EditsValues : Delta → Prop
  | .complex _ ops => ∃ op ∈ ops, op.kind = .add ∨ op.kind = .delete
  | .replace .. => False

namespace Memory

/-- The value that a delta adds to the attribute that says whether an account is enabled. -/
def disabling : DeltaSet := ⟨[.complex ⟨"__enable__", by decide⟩ [.add [.boolean false]]]⟩

/-- A resource with Bob's account, which is enabled. -/
def withBob : Memory :=
  { empty with
    store := Store.empty.put (key .account bob)
      (AttributeSet.toJson ⟨[⟨⟨"__ENABLE__", by decide⟩, [.boolean true]⟩]⟩) }

/-- A delta that adds a value to an operational attribute is made natively, and by a look-up and a
replacement, and the value is stored. -/
theorem disabling_not_refused :
    let f := facade .full (fun _ => bob) .default
    let g := facade .replaceOnly (fun _ => bob) .default
    let r := Invocation.updateDelta .account bob disabling .default
    let stored := some (AttributeSet.toJson
      ⟨[⟨⟨"__enable__", by decide⟩, [.boolean true, .boolean false]⟩]⟩)
    (∃ d ∈ disabling.toList, d.EditsValues ∧ Config.default.isOperational d.name.text = true) ∧
      ¬ f.Refuses r withBob [] ∧ (f.perform r withBob).result = .ok (.effects Keyed.empty) ∧
      (f.perform r withBob).state.store.get? (key .account bob) = stored ∧
      ¬ g.Refuses r withBob [] ∧ (g.perform r withBob).result = .ok (.effects Keyed.empty) ∧
      (g.perform r withBob).state.store.get? (key .account bob) = stored := by
  refine ⟨⟨_, List.mem_cons_self, ⟨_, List.mem_cons_self, .inl rfl⟩, by decide⟩, fun h => ?_, rfl,
    rfl, fun h => ?_, rfl, rfl⟩
  · cases h.2
  · cases h.2

end Memory

end Provisioning
