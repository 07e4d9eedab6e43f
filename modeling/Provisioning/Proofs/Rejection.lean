import Provisioning.Proofs.Facade

/-!
# Requests that are turned away

A request is barred if its arguments are such that no connector may get it, and misses an operation
if its way needs one that is not offered. The facade turns both away before it calls any method of
the connector, and it calls one for every other request (`rejected_before_any_call`).
-/
namespace Provisioning

variable {σ α β : Type}

/-- Actions that lead to the same results and states; their events may differ. -/
def Action.SameEffects (act act' : Action σ α) : Prop :=
  ∀ s, (act s).result = (act' s).result ∧ (act s).state = (act' s).state

namespace Action.SameEffects

theorem refl (act : Action σ α) : SameEffects act act := fun _ => ⟨rfl, rfl⟩

theorem trans {act act' act'' : Action σ α} (h : SameEffects act act')
    (h' : SameEffects act' act'') : SameEffects act act'' :=
  fun s => ⟨(h s).1.trans (h' s).1, (h s).2.trans (h' s).2⟩

theorem log (level : LogLevel) (message : String) {act act' : Action σ α}
    (h : SameEffects act act') :
    SameEffects (Action.log level message >>= fun _ => act) act' := by
  intro s
  rw [result_log_bind, state_log_bind]
  exact h s

theorem reported {act act' : Action σ α} (h : SameEffects act act') (done : α → String)
    (failed : Error → String) : SameEffects (act.reported done failed) act' :=
  h

theorem map {act act' : Action σ α} (h : SameEffects act act') (f : α → β) :
    SameEffects (f <$> act) (f <$> act') := by
  intro s
  rw [result_map, result_map, state_map, state_map, (h s).1, (h s).2]
  exact ⟨rfl, rfl⟩

theorem bind (act : Action σ α) {next next' : α → Action σ β}
    (h : ∀ a, SameEffects (next a) (next' a)) : SameEffects (act >>= next) (act >>= next') :=
  bind_congr_effects act h

end Action.SameEffects

/-- A check in two parts is two checks. -/
theorem Action.ofExcept_bind_bind (c : Except Error Unit) (d : Except Error α)
    (next : α → Action σ β) :
    (Action.ofExcept (c >>= fun _ => d) >>= next) =
      (Action.ofExcept c >>= fun _ => Action.ofExcept d >>= next) := by
  cases c <;> rfl

theorem mirrors_log (level : LogLevel) (message : String) :
    Mirrors (Action.log level message : Action (Observation σ) Unit)
      (Action.log level message) :=
  ⟨fun _ => rfl, fun _ => rfl, fun _ => rfl⟩

theorem Mirrors.map {act : Action (Observation σ) α} {plain : Action σ α} (h : Mirrors act plain)
    (f : α → β) : Mirrors (f <$> act) (f <$> plain) := by
  rw [map_eq_pure_bind, map_eq_pure_bind]
  exact h.bind fun a => mirrors_pure (f a)

theorem Mirrors.reported {act : Action (Observation σ) α} {plain : Action σ α}
    (h : Mirrors act plain) (done : α → String) (failed : Error → String) :
    Mirrors (act.reported done failed) (plain.reported done failed) := by
  refine ⟨h.result, h.resource, fun t => ?_⟩
  simp only [Action.reported, h.result, h.events]

namespace Facade

/-- What the facade does with a request that passes the checks. -/
def dispatch (f : Facade σ) : Invocation → Action σ Reply
  | .changeValues mode cls uid vs o => Reply.uid <$> reconcile f.connector cls uid vs mode o
  | .updateDelta cls uid ds o =>
    if f.connector.capabilities.supports .complexUpdateDelta then
      f.connector.perform (.updateDelta cls uid ds o)
    else if f.config.emulateDeltas then
      Reply.effects <$> reconcileDeltas f.connector cls uid ds o
    else .fail (.unsupported .complexUpdateDelta)
  | r => do
    .ofExcept (f.connector.capabilities.require r.operation)
    f.connector.perform r

section

variable (f : Facade σ) (cls : ObjectClass) (uid : Uid) (options : Options)

/-- The path is chosen twice, with the same outcome. -/
theorem changeValues_effects (mode : UpdateMode) (vs : AttributeSet) :
    Action.SameEffects (f.changeValues mode cls uid vs options)
      (Action.ofExcept (checkValueChanges f.config cls vs) >>= fun _ =>
        reconcile f.connector cls uid vs mode options) := by
  refine .log _ _ (.reported (.bind _ fun _ => ?_) _ _)
  unfold reconcile
  cases Path.select f.connector.capabilities with
  | error e => exact .refl _
  | ok path =>
    rw [Action.ofExcept_ok_bind, Action.ofExcept_ok_bind]
    exact .log _ _ (.refl _)

theorem updateDelta_effects (ds : DeltaSet) :
    Action.SameEffects (Reply.effects <$> f.updateDelta cls uid ds options)
      (Action.ofExcept (checkDeltas cls ds) >>= fun _ =>
        f.dispatch (.updateDelta cls uid ds options)) := by
  have heffects : Action.SameEffects (f.updateDelta cls uid ds options)
      (Action.ofExcept (checkDeltas cls ds) >>= fun _ =>
        if f.connector.capabilities.supports .complexUpdateDelta then
          f.connector.updateDelta cls uid ds options
        else if f.config.emulateDeltas then reconcileDeltas f.connector cls uid ds options
        else .fail (.unsupported .complexUpdateDelta)) := by
    refine .log _ _ (.reported (.bind _ fun _ => ?_) _ _)
    split
    · exact .log _ _ (.refl _)
    · split
      · exact .log _ _ (.refl _)
      · exact .refl _
  refine (heffects.map Reply.effects).trans ?_
  rw [map_bind]
  refine .bind _ fun _ => ?_
  rw [dispatch]
  split
  · exact .refl _
  · split <;> exact .refl _

/-- Apart from its events, a request is its checks and then what follows them. -/
theorem perform_effects (r : Invocation) :
    Action.SameEffects (f.perform r)
      (Action.ofExcept (f.config.check r) >>= fun _ => f.dispatch r) := by
  cases r with
  | create cls as o =>
    refine (Action.SameEffects.map (.log _ _ (.reported (.refl _) _ _)) _).trans ?_
    simp only [map_bind, Config.check, Action.ofExcept_bind_bind]
    exact .refl _
  | getObject cls uid o =>
    refine (Action.SameEffects.map (.log _ _ (.reported (.refl _) _ _)) _).trans ?_
    simp only [map_bind]
    exact .refl _
  | update cls uid as o =>
    refine (Action.SameEffects.map (.log _ _ (.reported (.refl _) _ _)) _).trans ?_
    simp only [map_bind, Config.check, Action.ofExcept_bind_bind]
    exact .refl _
  | changeValues mode cls uid vs o =>
    have h := (f.changeValues_effects cls uid o mode vs).map Reply.uid
    rw [map_bind] at h
    cases mode <;> exact h
  | updateDelta cls uid ds o => exact f.updateDelta_effects cls uid o ds
  | delete cls uid o =>
    refine (Action.SameEffects.map (.log _ _ (.reported (.refl _) _ _)) _).trans ?_
    simp only [map_bind]
    exact .refl _

end

section

variable (f : Facade σ) (cls : ObjectClass) (uid : Uid) (options : Options)

/-- The same facade in front of the observed connector. -/
def observed (f : Facade σ) : Facade (Observation σ) := ⟨f.connector.observed, f.config⟩

theorem mirrors_changeValues (mode : UpdateMode) (vs : AttributeSet) :
    Mirrors (f.observed.changeValues mode cls uid vs options)
      (f.changeValues mode cls uid vs options) :=
  (mirrors_log _ _).bind fun _ => Mirrors.reported
    ((mirrors_ofExcept _).bind fun _ => (mirrors_ofExcept _).bind fun _ =>
      (mirrors_log _ _).bind fun _ => mirrors_reconcile f.connector cls uid options mode vs) _ _

theorem mirrors_updateDelta (ds : DeltaSet) :
    Mirrors (f.observed.updateDelta cls uid ds options) (f.updateDelta cls uid ds options) := by
  refine (mirrors_log _ _).bind fun _ =>
    Mirrors.reported ((mirrors_ofExcept _).bind fun _ => ?_) _ _
  show Mirrors (if f.connector.capabilities.supports .complexUpdateDelta then _ else _) _
  split
  · exact (mirrors_log _ _).bind fun _ => Connector.mirrors_noted _ _
  · show Mirrors (if f.config.emulateDeltas then _ else _) _
    split
    · exact (mirrors_log _ _).bind fun _ => mirrors_reconcileDeltas f.connector cls uid options ds
    · exact mirrors_ofExcept _

/-- Observing the connector of a facade makes no difference. -/
theorem mirrors_perform (r : Invocation) : Mirrors (f.observed.perform r) (f.perform r) := by
  cases r with
  | changeValues mode cls uid vs o =>
    cases mode <;> exact (f.mirrors_changeValues cls uid o _ vs).map _
  | updateDelta cls uid ds o => exact (f.mirrors_updateDelta cls uid o ds).map _
  | create cls as o =>
    exact Mirrors.map ((mirrors_log _ _).bind fun _ => Mirrors.reported
      ((mirrors_ofExcept _).bind fun _ => (mirrors_ofExcept _).bind fun _ =>
        (mirrors_ofExcept _).bind fun _ => Connector.mirrors_noted _ _) _ _) _
  | getObject cls uid o =>
    exact Mirrors.map ((mirrors_log _ _).bind fun _ => Mirrors.reported
      ((mirrors_ofExcept _).bind fun _ => Connector.mirrors_noted _ _) _ _) _
  | update cls uid as o =>
    exact Mirrors.map ((mirrors_log _ _).bind fun _ => Mirrors.reported
      ((mirrors_ofExcept _).bind fun _ => (mirrors_ofExcept _).bind fun _ =>
        (mirrors_ofExcept _).bind fun _ => Connector.mirrors_noted _ _) _ _) _
  | delete cls uid o =>
    exact Mirrors.map ((mirrors_log _ _).bind fun _ => Mirrors.reported
      ((mirrors_ofExcept _).bind fun _ => (mirrors_ofExcept _).bind fun _ =>
        Connector.mirrors_noted _ _) _ _) _

end

end Facade

/-- Whether the arguments of a request are such that no connector may get it: its class stands for
every class, it names the identifier, or it adds or removes values of an operational attribute. -/
def Invocation.Barred (config : Config) : Invocation → Prop
  | .create cls as _ | .update cls _ as _ =>
    Text.fold cls.text = Text.fold "__ALL__" ∨ ∃ n ∈ as.names, Text.fold n = Text.fold uidName
  | .changeValues _ cls _ vs _ =>
    Text.fold cls.text = Text.fold "__ALL__" ∨ (∃ n ∈ vs.names, Text.fold n = Text.fold uidName) ∨
      ∃ n ∈ vs.names, config.isOperational n = true
  | .updateDelta cls _ ds _ =>
    Text.fold cls.text = Text.fold "__ALL__" ∨ ∃ n ∈ ds.names, Text.fold n = Text.fold uidName
  | .delete cls _ _ => Text.fold cls.text = Text.fold "__ALL__"
  | .getObject .. => False

/-- The operations that a request needs, in the order in which they are asked for. -/
def Invocation.needs (capabilities : Capabilities) (config : Config) : Invocation → List Operation
  | .changeValues .. =>
    if capabilities.supports .updateAttributeValues then [.updateAttributeValues]
    else [.search, .update]
  | .updateDelta .. =>
    if capabilities.supports .complexUpdateDelta then [.complexUpdateDelta]
    else if config.emulateDeltas then [.search, .update] else [.complexUpdateDelta]
  | r => [r.operation]

/-- The first operation that a request needs and that is not offered. -/
def Invocation.missing (capabilities : Capabilities) (config : Config) (r : Invocation) :
    Option Operation :=
  (r.needs capabilities config).find? fun op => !capabilities.supports op

/-- A check that blames an argument if a condition holds, and passes if it does not. -/
structure Blames (check : Except Error Unit) (p : Prop) : Prop where
  refused : p → ∃ fault, check = .error (.invalidArgument fault)
  passed : ¬ p → check = .ok ()

namespace Blames

theorem bind {c d : Except Error Unit} {p q : Prop} (hc : Blames c p) (hd : Blames d q) :
    Blames (c >>= fun _ => d) (p ∨ q) := by
  by_cases hp : p
  · obtain ⟨fault, hfault⟩ := hc.refused hp
    refine ⟨fun _ => ⟨fault, ?_⟩, fun h => absurd (.inl hp) h⟩
    rw [hfault]
    rfl
  · rw [hc.passed hp]
    exact ⟨fun h => hd.refused (h.resolve_left hp), fun h => hd.passed fun hq => h (.inr hq)⟩

theorem imp {c : Except Error Unit} {p q : Prop} (hc : Blames c p) (h : p ↔ q) : Blames c q :=
  ⟨fun hq => hc.refused (h.2 hq), fun hq => hc.passed fun hp => hq (h.1 hp)⟩

/-- A check that is a test. -/
theorem of_test (b : Bool) (fault : Fault) :
    Blames (if b then .error (.invalidArgument fault) else .ok ()) (b = true) :=
  ⟨fun h => ⟨fault, if_pos h⟩, fun h => if_neg h⟩

theorem checkClass (cls : ObjectClass) :
    Blames (checkClass cls) (Text.fold cls.text = Text.fold "__ALL__") :=
  (of_test cls.isEvery _).imp (ObjectClass.beq_iff cls .every)

theorem contains_iff {α : Type} [HasName α] (s : Keyed α) (n : String) :
    s.contains n = true ↔ ∃ m ∈ s.names, Text.fold m = Text.fold n := by
  rw [mem_names_iff, Keyed.contains, Option.isSome_iff_exists]

theorem checkAttributes (parameter : Parameter) (as : AttributeSet) :
    Blames (checkAttributes parameter as) (∃ n ∈ as.names, Text.fold n = Text.fold uidName) :=
  (of_test (as.contains uidName) _).imp (contains_iff as uidName)

theorem checkValueChanges (config : Config) (cls : ObjectClass) (vs : AttributeSet) :
    Blames (checkValueChanges config cls vs)
      (Text.fold cls.text = Text.fold "__ALL__" ∨
        (∃ n ∈ vs.names, Text.fold n = Text.fold uidName) ∨
        ∃ n ∈ vs.names, config.isOperational n = true) := by
  refine (checkClass cls).bind ((checkAttributes _ vs).bind ?_)
  have hmem : (∃ n ∈ vs.names, config.isOperational n = true) ↔
      ∃ a ∈ vs.toList, config.isOperational a.name.text = true := by
    constructor
    · rintro ⟨n, hn, hop⟩
      obtain ⟨a, ha, rfl⟩ := List.mem_map.1 hn
      exact ⟨a, ha, hop⟩
    · rintro ⟨a, ha, hop⟩
      exact ⟨a.name.text, name_mem_names ha, hop⟩
  cases hfind : vs.toList.find? fun a => config.isOperational a.name.text with
  | none =>
    rw [List.find?_eq_none] at hfind
    exact ⟨fun h => absurd (hmem.1 h) fun ⟨a, ha, hop⟩ => hfind a ha hop, fun _ => rfl⟩
  | some a =>
    have hop := List.find?_some hfind
    have ha := hmem.2 ⟨a, List.mem_of_find?_eq_some hfind, hop⟩
    exact ⟨fun _ => ⟨_, rfl⟩, fun h => absurd ha h⟩

theorem checkDeltas (cls : ObjectClass) (ds : DeltaSet) :
    Blames (checkDeltas cls ds)
      (Text.fold cls.text = Text.fold "__ALL__" ∨
        ∃ n ∈ ds.names, Text.fold n = Text.fold uidName) :=
  (checkClass cls).bind ((of_test (ds.contains uidName) _).imp (contains_iff ds uidName))

/-- The checks of a request refuse it exactly if it is barred. -/
theorem check (config : Config) (r : Invocation) : Blames (config.check r) (r.Barred config) := by
  cases r with
  | create cls as o => exact (checkClass cls).bind (checkAttributes _ as)
  | getObject cls uid o => exact ⟨False.elim, fun _ => rfl⟩
  | update cls uid as o => exact (checkClass cls).bind (checkAttributes _ as)
  | changeValues mode cls uid vs o => exact checkValueChanges config cls vs
  | updateDelta cls uid ds o => exact checkDeltas cls ds
  | delete cls uid o => exact checkClass cls

end Blames

/-- What is asked for in turn is refused by the first operation that is not offered. -/
theorem Capabilities.require_eq_find? (c : Capabilities) (op : Operation) :
    c.require op =
      match [op].find? fun op => !c.supports op with
      | some op => .error (.unsupported op)
      | none => .ok () := by
  unfold require
  cases h : c.supports op <;> simp only [List.find?, h, Bool.not_false, Bool.not_true,
    ↓reduceIte, Bool.false_eq_true]

theorem Capabilities.requireFetchAndReplace_eq_find? (c : Capabilities) :
    c.requireFetchAndReplace =
      match [.search, .update].find? fun op => !c.supports op with
      | some op => .error (.unsupported op)
      | none => .ok () := by
  rw [requireFetchAndReplace_eq]
  cases hs : c.supports .search <;> cases hu : c.supports .update <;>
    simp only [List.find?, hs, hu, Bool.not_false, Bool.not_true, ↓reduceIte, Bool.false_eq_true]

theorem require_bind_of_missing {c : Capabilities} {op missing : Operation}
    (h : [op].find? (fun op => !c.supports op) = some missing) (act : Action σ α) :
    (Action.ofExcept (c.require op) >>= fun _ => act) = .fail (.unsupported missing) := by
  rw [Capabilities.require_eq_find?, h]
  rfl

theorem require_bind_of_offered {c : Capabilities} {op : Operation}
    (h : [op].find? (fun op => !c.supports op) = none) (act : Action σ α) :
    (Action.ofExcept (c.require op) >>= fun _ => act) = act := by
  rw [Capabilities.require_eq_find?, h]
  rfl

/-- A call of an observed connector is noted. -/
theorem Connector.calls_perform (c : Connector σ) (r : Invocation) (s : σ)
    (before : List Invocation) :
    (c.observed.perform r ⟨s, before⟩).state.calls = before ++ [r] := by
  cases r with
  | changeValues mode cls uid vs o => cases mode <;> (rw [perform, Action.state_map]; rfl)
  | _ => rw [perform, Action.state_map]; rfl

/-- Writing back starts with a look-up if it needs nothing that is not offered. -/
theorem WritesBack.calls_of_offered {c : Connector σ} {cls : ObjectClass} {uid : Uid}
    {names : List String} {options : Options} {payload : AttributeSet → AttributeSet} {s s' : σ}
    {calls : List Invocation} {result : Except Error Uid}
    (hways : WritesBack c cls uid names options payload s calls result s')
    (h : [Operation.search, .update].find? (fun op => !c.capabilities.supports op) = none) :
    ∃ call rest, calls = call :: rest := by
  cases hways with
  | noSearch hsearch => simp [hsearch] at h
  | noUpdate hsearch hupdate => simp [hupdate] at h
  | failed => exact ⟨_, _, rfl⟩
  | absent => exact ⟨_, _, rfl⟩
  | replaced => exact ⟨_, _, rfl⟩

namespace Facade

theorem calls_of_offered {f : Facade σ} {op : Operation} {r : Invocation}
    (h : [op].find? (fun op => !f.connector.capabilities.supports op) = none) (s : σ)
    (before : List Invocation) :
    ∃ call calls, ((Action.ofExcept (f.connector.capabilities.require op) >>= fun _ =>
      f.connector.observed.perform r) ⟨s, before⟩).state.calls = before ++ call :: calls := by
  rw [require_bind_of_offered h, Connector.calls_perform]
  exact ⟨r, [], rfl⟩

/-- A request that needs an operation that is not offered ends where the operation is asked for. -/
theorem dispatch_of_missing {f : Facade σ} {r : Invocation} {op : Operation}
    (h : r.missing f.connector.capabilities f.config = some op) :
    f.dispatch r = .fail (.unsupported op) := by
  cases r with
  | create cls as o => exact require_bind_of_missing h _
  | getObject cls uid o => exact require_bind_of_missing h _
  | update cls uid as o => exact require_bind_of_missing h _
  | delete cls uid o => exact require_bind_of_missing h _
  | changeValues mode cls uid vs o =>
    unfold Invocation.missing Invocation.needs at h
    cases hnative : f.connector.capabilities.supports .updateAttributeValues with
    | true => simp [hnative] at h
    | false =>
      simp only [hnative, Bool.false_eq_true, ↓reduceIte] at h
      rw [dispatch, reconcile_of_not_native f.connector cls uid o mode vs hnative, writeBack,
        Capabilities.requireFetchAndReplace_eq_find?, h]
      rfl
  | updateDelta cls uid ds o =>
    unfold Invocation.missing Invocation.needs at h
    rw [dispatch]
    cases hnative : f.connector.capabilities.supports .complexUpdateDelta with
    | true => simp [hnative] at h
    | false =>
      simp only [hnative, Bool.false_eq_true, ↓reduceIte] at h ⊢
      split at h
      · rename_i hemulate
        rw [if_pos hemulate, reconcileDeltas, Capabilities.requireFetchAndReplace_eq_find?, h]
        rfl
      · rename_i hemulate
        have hop : Operation.complexUpdateDelta = op := by simpa [hnative] using h
        rw [if_neg hemulate, hop]

/-- A request that misses nothing gets to the connector. -/
theorem calls_dispatch {f : Facade σ} {r : Invocation}
    (h : r.missing f.connector.capabilities f.config = none) (s : σ) (before : List Invocation) :
    ∃ call calls, (f.observed.dispatch r ⟨s, before⟩).state.calls = before ++ call :: calls := by
  cases r with
  | create cls as o => exact calls_of_offered h s before
  | getObject cls uid o => exact calls_of_offered h s before
  | update cls uid as o => exact calls_of_offered h s before
  | delete cls uid o => exact calls_of_offered h s before
  | changeValues mode cls uid vs o =>
    unfold Invocation.missing Invocation.needs at h
    obtain ⟨calls, hcalls, hways⟩ := calls_reconcile f.connector cls uid o mode vs s before
    rw [dispatch, Action.state_map]
    show ∃ call calls,
      (reconcile f.connector.observed cls uid vs mode o ⟨s, before⟩).state.calls = _
    rw [hcalls]
    cases hnative : f.connector.capabilities.supports .updateAttributeValues with
    | true =>
      rw [if_pos hnative] at hways
      exact ⟨_, _, by rw [hways.1]⟩
    | false =>
      simp only [hnative, Bool.false_eq_true, ↓reduceIte] at h hways
      obtain ⟨call, rest, rfl⟩ := hways.calls_of_offered h
      exact ⟨call, rest, rfl⟩
  | updateDelta cls uid ds o =>
    unfold Invocation.missing Invocation.needs at h
    have hdispatch : f.observed.dispatch (.updateDelta cls uid ds o) =
      if f.connector.capabilities.supports .complexUpdateDelta then
        f.connector.observed.perform (.updateDelta cls uid ds o)
      else if f.config.emulateDeltas then
        Reply.effects <$> reconcileDeltas f.connector.observed cls uid ds o
      else .fail (.unsupported .complexUpdateDelta) := rfl
    rw [hdispatch]
    cases hnative : f.connector.capabilities.supports .complexUpdateDelta with
    | true =>
      rw [if_pos rfl, Connector.calls_perform]
      exact ⟨_, [], rfl⟩
    | false =>
      simp only [hnative, Bool.false_eq_true, ↓reduceIte] at h ⊢
      split at h
      · rename_i hemulate
        obtain ⟨calls, result, hcalls, -, hways⟩ :=
          calls_reconcileDeltas f.connector cls uid o ds s before
        obtain ⟨call, rest, rfl⟩ := hways.calls_of_offered h
        rw [if_pos hemulate, Action.state_map, hcalls]
        exact ⟨call, rest, rfl⟩
      · simp [hnative] at h

section

variable {f : Facade σ} {r : Invocation}

theorem perform_of_barred (h : r.Barred f.config) (s : σ) :
    (∃ fault, (f.perform r s).result = .error (.invalidArgument fault)) ∧
      (f.perform r s).state = s := by
  obtain ⟨hresult, hstate⟩ := f.perform_effects r s
  obtain ⟨fault, hfault⟩ := (Blames.check f.config r).refused h
  rw [hfault, Action.ofExcept_error_bind] at hresult hstate
  exact ⟨⟨fault, hresult⟩, hstate⟩

theorem perform_of_not_barred (h : ¬ r.Barred f.config) :
    Action.SameEffects (f.perform r) (f.dispatch r) := by
  have heffects := f.perform_effects r
  rwa [(Blames.check f.config r).passed h] at heffects

theorem perform_of_missing {op : Operation} (h : ¬ r.Barred f.config)
    (hmissing : r.missing f.connector.capabilities f.config = some op) (s : σ) :
    (f.perform r s).result = .error (.unsupported op) ∧ (f.perform r s).state = s := by
  obtain ⟨hresult, hstate⟩ := perform_of_not_barred h s
  rw [dispatch_of_missing hmissing] at hresult hstate
  exact ⟨hresult, hstate⟩

/-- A request that is turned away leaves everything as it is. -/
theorem state_of_rejected
    (h : r.Barred f.config ∨ (r.missing f.connector.capabilities f.config).isSome = true)
    (s : σ) : (f.perform r s).state = s := by
  by_cases hbarred : r.Barred f.config
  · exact (perform_of_barred hbarred s).2
  · obtain ⟨op, hop⟩ := Option.isSome_iff_exists.1 (h.resolve_left hbarred)
    exact (perform_of_missing hbarred hop s).2

end

end Facade

/-- Whatever the connector is, a request that is barred or misses an operation is refused with none
of its methods called, so that a resource in memory stays as it is to its counters and armed
failures. For every other request at least one method is called. -/
theorem rejected_before_any_call (c : Connector σ) (config : Config) (r : Invocation) (s : σ)
    (before : List Invocation) :
    let o := (Facade.mk c.observed config).perform r ⟨s, before⟩
    (o.result = ((Facade.mk c config).perform r s).result ∧
      o.state.resource = ((Facade.mk c config).perform r s).state) ∧
    (r.Barred config →
      (∃ fault, o.result = .error (.invalidArgument fault)) ∧ o.state = ⟨s, before⟩) ∧
    (¬ r.Barred config → ∀ op, r.missing c.capabilities config = some op →
      o.result = .error (.unsupported op) ∧ o.state = ⟨s, before⟩) ∧
    (¬ r.Barred config → r.missing c.capabilities config = none →
      ∃ call calls, o.state.calls = before ++ call :: calls) ∧
    ∀ capabilities fresh m, r.Barred config ∨ (r.missing capabilities config).isSome = true →
      ((Memory.facade capabilities fresh config).perform r m).state = m := by
  intro o
  have hmirrors := (Facade.mk c config).mirrors_perform r
  refine ⟨⟨hmirrors.result _, hmirrors.resource _⟩, fun h => ?_, fun h op hop => ?_,
    fun h hnone => ?_, fun capabilities fresh m h => ?_⟩
  · exact Facade.perform_of_barred h _
  · exact Facade.perform_of_missing h hop _
  · obtain ⟨call, calls, hcalls⟩ := Facade.calls_dispatch (f := ⟨c, config⟩) hnone s before
    refine ⟨call, calls, ?_⟩
    rw [← hcalls]
    exact congrArg Observation.calls (Facade.perform_of_not_barred h _).2
  · exact Facade.state_of_rejected h m

end Provisioning
