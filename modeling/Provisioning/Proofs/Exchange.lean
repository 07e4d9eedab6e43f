import Provisioning.Proofs.Edit

/-!
# Calls of a reconciliation

Whatever a connector answers, an update by value makes one native call, or looks the object up and
writes it back: at most one look-up, for the changed names, and at most one update after it, with
the new values and the caller's options. `WritesBack` lists the ways in which that can go.
-/
namespace Provisioning

variable {σ α β : Type}

/-- An action on an observed resource has the result and the events of an action on the resource
itself, and leaves the resource in the same state. -/
structure Mirrors (act : Action (Observation σ) α) (plain : Action σ α) : Prop where
  result : ∀ t, (act t).result = (plain t.resource).result
  resource : ∀ t, (act t).state.resource = (plain t.resource).state
  events : ∀ t, (act t).events = (plain t.resource).events

theorem Mirrors.bind {act : Action (Observation σ) α} {plain : Action σ α}
    {next : α → Action (Observation σ) β} {next' : α → Action σ β} (h : Mirrors act plain)
    (hnext : ∀ a, Mirrors (next a) (next' a)) : Mirrors (act >>= next) (plain >>= next') := by
  constructor <;> intro t
  all_goals
    have hresult := h.result t
    have hresource := h.resource t
    have hevents := h.events t
    cases hplain : (plain t.resource).result with
    | error e =>
      rw [hplain] at hresult
      simp only [Action.bind_of_error hresult, Action.bind_of_error hplain, hresource, hevents]
    | ok a =>
      rw [hplain] at hresult
      simp only [Action.bind_of_ok hresult, Action.bind_of_ok hplain, (hnext a).result,
        (hnext a).resource, (hnext a).events, hresource, hevents]

theorem mirrors_pure (a : α) : Mirrors (Pure.pure a : Action (Observation σ) α) (Pure.pure a) :=
  ⟨fun _ => rfl, fun _ => rfl, fun _ => rfl⟩

theorem mirrors_ofExcept (r : Except Error α) :
    Mirrors (.ofExcept r : Action (Observation σ) α) (.ofExcept r) :=
  ⟨fun _ => rfl, fun _ => rfl, fun _ => rfl⟩

theorem mirrors_ofTraced (r : Traced α) :
    Mirrors (.ofTraced r : Action (Observation σ) α) (.ofTraced r) :=
  ⟨fun _ => rfl, fun _ => rfl, fun _ => rfl⟩

namespace Connector

theorem mirrors_noted (call : Invocation) (act : Action σ α) : Mirrors (noted call act) act :=
  ⟨fun _ => rfl, fun _ => rfl, fun _ => rfl⟩

/-- The native operation for adding or for removing values. -/
def changeValues (c : Connector σ) :
    UpdateMode → ObjectClass → Uid → AttributeSet → Options → Action σ Uid
  | .add => c.addValues
  | .remove => c.removeValues

end Connector

/-- A look-up is asked for first, then a replacement. -/
theorem requireFetchAndReplace_eq (capabilities : Capabilities) :
    capabilities.requireFetchAndReplace =
      if capabilities.supports .search then
        if capabilities.supports .update then .ok () else .error (.unsupported .update)
      else .error (.unsupported .search) := by
  unfold Capabilities.requireFetchAndReplace Capabilities.require
  by_cases hsearch : capabilities.supports .search = true
  · rw [if_pos hsearch, if_pos hsearch]
    rfl
  · rw [if_neg hsearch, if_neg hsearch]
    rfl

/-- Looks attributes up, computes others from them, and replaces these. -/
def writeBack (c : Connector σ) (cls : ObjectClass) (uid : Uid) (names : List String)
    (options : Options) (payload : AttributeSet → AttributeSet) : Action σ Uid := do
  .ofExcept c.capabilities.requireFetchAndReplace
  let base ← fetchAttributes c cls uid names options
  c.update cls uid (payload base) options

/-- Which calls writing back makes of a connector in a state, what it results in, and the state in
which it leaves the resource. -/
inductive WritesBack (c : Connector σ) (cls : ObjectClass) (uid : Uid) (names : List String)
    (options : Options) (payload : AttributeSet → AttributeSet) (s : σ) :
    List Invocation → Except Error Uid → σ → Prop where
  | noSearch (hsearch : c.capabilities.supports .search = false) :
    WritesBack c cls uid names options payload s [] (.error (.unsupported .search)) s
  | noUpdate (hsearch : c.capabilities.supports .search = true)
    (hupdate : c.capabilities.supports .update = false) :
    WritesBack c cls uid names options payload s [] (.error (.unsupported .update)) s
  | failed {e : Error} (hsearch : c.capabilities.supports .search = true)
    (hupdate : c.capabilities.supports .update = true)
    (hget : (c.getObject cls uid (options.asking names) s).result = .error e) :
    WritesBack c cls uid names options payload s [.getObject cls uid (options.asking names)]
      (.error e) (c.getObject cls uid (options.asking names) s).state
  | absent (hsearch : c.capabilities.supports .search = true)
    (hupdate : c.capabilities.supports .update = true)
    (hget : (c.getObject cls uid (options.asking names) s).result = .ok none) :
    WritesBack c cls uid names options payload s [.getObject cls uid (options.asking names)]
      (.error (.objectNotFound cls.text uid.text))
      (c.getObject cls uid (options.asking names) s).state
  | replaced {found : Record} (hsearch : c.capabilities.supports .search = true)
    (hupdate : c.capabilities.supports .update = true)
    (hget : (c.getObject cls uid (options.asking names) s).result = .ok (some found)) :
    WritesBack c cls uid names options payload s
      [.getObject cls uid (options.asking names),
        .update cls uid (payload found.attributes) options]
      (c.update cls uid (payload found.attributes) options
        (c.getObject cls uid (options.asking names) s).state).result
      (c.update cls uid (payload found.attributes) options
        (c.getObject cls uid (options.asking names) s).state).state

section

variable (c : Connector σ) (cls : ObjectClass) (uid : Uid) (options : Options)

theorem mirrors_fetchAttributes (names : List String) :
    Mirrors (fetchAttributes c.observed cls uid names options)
      (fetchAttributes c cls uid names options) := by
  refine (Connector.mirrors_noted _ _).bind fun answer => ?_
  cases answer with
  | none => exact mirrors_ofExcept _
  | some found => exact mirrors_pure _

/-- A look-up that is observed makes one call, and has what was found, if anything was. -/
theorem fetchAttributes_observed (names : List String) (s : σ) (before : List Invocation) :
    (fetchAttributes c.observed cls uid names options ⟨s, before⟩).result =
      ((c.getObject cls uid (options.asking names) s).result >>= fun answer =>
        match answer with
        | some found => .ok found.attributes
        | none => .error (.objectNotFound cls.text uid.text)) ∧
    (fetchAttributes c.observed cls uid names options ⟨s, before⟩).state =
      ⟨(c.getObject cls uid (options.asking names) s).state,
        before ++ [.getObject cls uid (options.asking names)]⟩ := by
  have hget (t : Observation σ) : c.observed.getObject cls uid (options.asking names) t =
      ⟨(c.getObject cls uid (options.asking names) t.resource).result,
        ⟨(c.getObject cls uid (options.asking names) t.resource).state,
          t.calls ++ [.getObject cls uid (options.asking names)]⟩,
        (c.getObject cls uid (options.asking names) t.resource).events⟩ := rfl
  unfold fetchAttributes
  rw [Action.result_bind, Action.state_bind, hget]
  cases (c.getObject cls uid (options.asking names) s).result with
  | error e => exact ⟨rfl, rfl⟩
  | ok answer => cases answer <;> exact ⟨rfl, rfl⟩

/-- Writing back is observed to go in one of the ways listed. -/
theorem writeBack_observed (names : List String) (payload : AttributeSet → AttributeSet)
    (s : σ) (before : List Invocation) :
    ∃ calls,
      (writeBack c.observed cls uid names options payload ⟨s, before⟩).state.calls =
        before ++ calls ∧
      WritesBack c cls uid names options payload s calls
        (writeBack c.observed cls uid names options payload ⟨s, before⟩).result
        (writeBack c.observed cls uid names options payload ⟨s, before⟩).state.resource := by
  have hcapabilities : c.observed.capabilities = c.capabilities := rfl
  unfold writeBack
  rw [hcapabilities, requireFetchAndReplace_eq]
  cases hsearch : c.capabilities.supports .search with
  | false => exact ⟨[], (List.append_nil _).symm, .noSearch hsearch⟩
  | true =>
    cases hupdate : c.capabilities.supports .update with
    | false => exact ⟨[], (List.append_nil _).symm, .noUpdate hsearch hupdate⟩
    | true =>
      obtain ⟨hresult, hstate⟩ := fetchAttributes_observed c cls uid options names s before
      simp only [↓reduceIte, Action.ofExcept_ok_bind]
      cases hget : (c.getObject cls uid (options.asking names) s).result with
      | error e =>
        rw [hget] at hresult
        rw [Action.bind_of_error hresult, hstate]
        exact ⟨_, rfl, .failed hsearch hupdate hget⟩
      | ok answer =>
        rw [hget] at hresult
        cases answer with
        | none =>
          rw [Action.bind_of_error hresult, hstate]
          exact ⟨_, rfl, .absent hsearch hupdate hget⟩
        | some found =>
          rw [Action.bind_of_ok hresult, hstate]
          exact ⟨_, List.append_assoc _ _ _, .replaced hsearch hupdate hget⟩

theorem mirrors_writeBack (names : List String) (payload : AttributeSet → AttributeSet) :
    Mirrors (writeBack c.observed cls uid names options payload)
      (writeBack c cls uid names options payload) :=
  (mirrors_ofExcept _).bind fun _ =>
    (mirrors_fetchAttributes c cls uid options names).bind fun _ => Connector.mirrors_noted _ _

/-- Values are changed natively where that is offered. -/
theorem reconcile_of_native (mode : UpdateMode) (changes : AttributeSet)
    (h : c.capabilities.supports .updateAttributeValues = true) :
    reconcile c cls uid changes mode options = c.changeValues mode cls uid changes options := by
  have hpath : Path.select c.capabilities = .ok .native := if_pos h
  unfold reconcile
  rw [hpath, Action.ofExcept_ok_bind]
  cases mode <;> rfl

/-- Elsewhere what they come to is written back. -/
theorem reconcile_of_not_native (mode : UpdateMode) (changes : AttributeSet)
    (h : c.capabilities.supports .updateAttributeValues = false) :
    reconcile c cls uid changes mode options =
      writeBack c cls uid changes.names options (mergeChanges mode changes) := by
  unfold reconcile writeBack Path.select
  rw [h]
  cases c.capabilities.requireFetchAndReplace <;> rfl

/-- What deltas make of a set, confined to the attributes that they name. -/
def deltaPayload (deltas : DeltaSet) (base : AttributeSet) : AttributeSet :=
  (deltas.applyTo base).restrict deltas.names

/-- What deltas come to is written back, and no further effects are reported. -/
theorem reconcileDeltas_effects (deltas : DeltaSet) (s : σ) :
    (reconcileDeltas c cls uid deltas options s).result =
      (writeBack c cls uid deltas.names options (deltaPayload deltas) s).result.map
        (fun _ => Keyed.empty) ∧
    (reconcileDeltas c cls uid deltas options s).state =
      (writeBack c cls uid deltas.names options (deltaPayload deltas) s).state := by
  have hmap : (fun _ => (Keyed.empty : DeltaSet)) <$>
      writeBack c cls uid deltas.names options (deltaPayload deltas) =
      (do
        Action.ofExcept c.capabilities.requireFetchAndReplace
        let base ← fetchAttributes c cls uid deltas.names options
        let _ ← c.update cls uid (deltaPayload deltas base) options
        return Keyed.empty) := by
    simp only [writeBack, map_eq_pure_bind, Action.bind_assoc]
  rw [← Action.result_map,
    ← Action.state_map (fun _ => (Keyed.empty : DeltaSet)) (writeBack _ _ _ _ _ _), hmap]
  unfold reconcileDeltas
  refine Action.bind_congr_effects _ (fun _ s => ?_) s
  refine Action.bind_congr_effects _ (fun base s => ?_) s
  exact ⟨Action.result_ofTraced_bind _ _ s, Action.state_ofTraced_bind _ _ s⟩

theorem mirrors_reconcile (mode : UpdateMode) (changes : AttributeSet) :
    Mirrors (reconcile c.observed cls uid changes mode options)
      (reconcile c cls uid changes mode options) := by
  cases hnative : c.capabilities.supports .updateAttributeValues with
  | true =>
    rw [reconcile_of_native c cls uid options mode changes hnative,
      reconcile_of_native c.observed cls uid options mode changes hnative]
    cases mode <;> exact Connector.mirrors_noted _ _
  | false =>
    rw [reconcile_of_not_native c cls uid options mode changes hnative,
      reconcile_of_not_native c.observed cls uid options mode changes hnative]
    exact mirrors_writeBack c cls uid options _ _

theorem mirrors_reconcileDeltas (deltas : DeltaSet) :
    Mirrors (reconcileDeltas c.observed cls uid deltas options)
      (reconcileDeltas c cls uid deltas options) :=
  (mirrors_ofExcept _).bind fun _ =>
    (mirrors_fetchAttributes c cls uid options _).bind fun _ =>
      (mirrors_ofTraced _).bind fun _ =>
        (Connector.mirrors_noted _ _).bind fun _ => mirrors_pure _

theorem calls_reconcile (mode : UpdateMode) (changes : AttributeSet) (s : σ)
    (before : List Invocation) :
    let o := reconcile c.observed cls uid changes mode options ⟨s, before⟩
    ∃ calls, o.state.calls = before ++ calls ∧
      if c.capabilities.supports .updateAttributeValues then
        calls = [.changeValues mode cls uid changes options] ∧
        o.result = (c.changeValues mode cls uid changes options s).result ∧
        o.state.resource = (c.changeValues mode cls uid changes options s).state
      else WritesBack c cls uid changes.names options (mergeChanges mode changes) s calls o.result
        o.state.resource := by
  intro o
  cases hnative : c.capabilities.supports .updateAttributeValues with
  | true =>
    have ho : o = c.observed.changeValues mode cls uid changes options ⟨s, before⟩ :=
      congrFun (reconcile_of_native c.observed cls uid options mode changes hnative) _
    rw [ho]
    refine ⟨[.changeValues mode cls uid changes options], ?_⟩
    cases mode <;> exact ⟨rfl, rfl, rfl, rfl⟩
  | false =>
    have ho : o = writeBack c.observed cls uid changes.names options (mergeChanges mode changes)
        ⟨s, before⟩ :=
      congrFun (reconcile_of_not_native c.observed cls uid options mode changes hnative) _
    rw [ho]
    exact writeBack_observed c cls uid options changes.names (mergeChanges mode changes) s before

theorem calls_reconcileDeltas (deltas : DeltaSet) (s : σ) (before : List Invocation) :
    let o := reconcileDeltas c.observed cls uid deltas options ⟨s, before⟩
    ∃ calls result, o.state.calls = before ++ calls ∧
      o.result = result.map (fun _ => Keyed.empty) ∧
      WritesBack c cls uid deltas.names options (deltaPayload deltas) s calls result
        o.state.resource := by
  intro o
  obtain ⟨hresult, hstate⟩ := reconcileDeltas_effects c.observed cls uid options deltas ⟨s, before⟩
  obtain ⟨calls, hcalls, hways⟩ :=
    writeBack_observed c cls uid options deltas.names (deltaPayload deltas) s before
  refine ⟨calls, _, ?_, hresult, ?_⟩
  · rw [hstate, hcalls]
  · rw [hstate]
    exact hways

end

/-- Whatever the connector offers and answers, and whatever state it is in, reconciling makes one
native call, or writes back in one of the ways listed, and observing it makes no difference. -/
theorem reconciliation_calls (c : Connector σ) (cls : ObjectClass) (uid : Uid) (options : Options)
    (s : σ) (before : List Invocation) :
    (∀ changes mode,
      let o := reconcile c.observed cls uid changes mode options ⟨s, before⟩
      o.result = (reconcile c cls uid changes mode options s).result ∧
      o.state.resource = (reconcile c cls uid changes mode options s).state ∧
      ∃ calls, o.state.calls = before ++ calls ∧
        if c.capabilities.supports .updateAttributeValues then
          calls = [.changeValues mode cls uid changes options] ∧
          o.result = (c.changeValues mode cls uid changes options s).result ∧
          o.state.resource = (c.changeValues mode cls uid changes options s).state
        else WritesBack c cls uid changes.names options (mergeChanges mode changes) s calls
          o.result o.state.resource) ∧
    ∀ deltas,
      let o := reconcileDeltas c.observed cls uid deltas options ⟨s, before⟩
      o.result = (reconcileDeltas c cls uid deltas options s).result ∧
      o.state.resource = (reconcileDeltas c cls uid deltas options s).state ∧
      ∃ calls result, o.state.calls = before ++ calls ∧
        o.result = result.map (fun _ => Keyed.empty) ∧
        WritesBack c cls uid deltas.names options
          (fun base => (deltas.applyTo base).restrict deltas.names) s calls result
          o.state.resource := by
  constructor
  · intro changes mode o
    have hmirrors := mirrors_reconcile c cls uid options mode changes
    exact ⟨hmirrors.result _, hmirrors.resource _,
      calls_reconcile c cls uid options mode changes s before⟩
  · intro deltas o
    have hmirrors := mirrors_reconcileDeltas c cls uid options deltas
    exact ⟨hmirrors.result _, hmirrors.resource _,
      calls_reconcileDeltas c cls uid options deltas s before⟩

end Provisioning
