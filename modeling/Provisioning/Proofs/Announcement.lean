import Provisioning.Proofs.Operational

/-!
# The path that the log announces

A request that changes single values, or applies deltas, logs that it begins, the path that it is
about to take, and how it ended. What the calls of the connector log stands between the last two,
and nothing else is logged. The path announced is the one taken, unless deltas are to be emulated on
a resource that cannot look up and replace: then a path is announced and no call is made
(`announced_path_taken_iff`).
-/
namespace Provisioning

variable {σ α β : Type}

/-- A line of the log. -/
structure LogLine where
  level : LogLevel
  message : String
  deriving DecidableEq

def Event.logLine? : Event → Option LogLine
  | .log level message => some ⟨level, message⟩
  | .asked _ => none

/-- The lines of the log among events, in order. -/
def logLines (events : List Event) : List LogLine := events.filterMap Event.logLine?

@[simp] theorem logLines_append (events events' : List Event) :
    logLines (events ++ events') = logLines events ++ logLines events' :=
  List.filterMap_append ..

@[simp] theorem logLines_asked (asked : List Consultation) :
    logLines (asked.map Event.asked) = [] := by
  rw [logLines, List.filterMap_map]
  exact List.filterMap_eq_nil_iff.2 fun _ _ => rfl

namespace Action

theorem events_map (f : α → β) (act : Action σ α) (s : σ) :
    ((f <$> act) s).events = (act s).events := by
  rw [map_eq_pure_bind]
  cases h : (act s).result with
  | error e => rw [bind_of_error h]
  | ok a =>
    rw [bind_of_ok h]
    exact List.append_nil _

end Action

namespace Connector

/-- The state in which calls leave a resource, whatever they answer. -/
def after (c : Connector σ) (calls : List Invocation) (s : σ) : σ :=
  calls.foldl (fun s call => (c.perform call s).state) s

/-- What calls log, one after the other. -/
def logOf (c : Connector σ) : List Invocation → σ → List LogLine
  | [], _ => []
  | call :: calls, s =>
    logLines (c.perform call s).events ++ c.logOf calls (c.perform call s).state

theorem after_append (c : Connector σ) (calls calls' : List Invocation) (s : σ) :
    c.after (calls ++ calls') s = c.after calls' (c.after calls s) :=
  List.foldl_append

theorem logOf_append (c : Connector σ) (calls calls' : List Invocation) (s : σ) :
    c.logOf (calls ++ calls') s = c.logOf calls s ++ c.logOf calls' (c.after calls s) := by
  induction calls generalizing s with
  | nil => rfl
  | cons call calls ih =>
    rw [List.cons_append, logOf, logOf, ih, List.append_assoc]
    rfl

end Connector

/-- An action on an observed resource changes it by calls alone, and logs lines of its own before
what they log. -/
def Tells (c : Connector σ) (own : List LogLine) (act : Action (Observation σ) α) : Prop :=
  ∀ s before, ∃ calls, (act ⟨s, before⟩).state = ⟨c.after calls s, before ++ calls⟩ ∧
    logLines (act ⟨s, before⟩).events = own ++ c.logOf calls s

/-- An action on an observed resource does so between a first line and a last one, neither of which
informs. -/
def Recounts (c : Connector σ) (own : List LogLine) (act : Action (Observation σ) α) : Prop :=
  ∀ s before, ∃ calls opening closing,
    (act ⟨s, before⟩).state = ⟨c.after calls s, before ++ calls⟩ ∧
    logLines (act ⟨s, before⟩).events = opening :: (own ++ c.logOf calls s ++ [closing]) ∧
    opening.level ≠ .info ∧ closing.level ≠ .info

section

variable {c : Connector σ}

theorem tells_ofExcept (r : Except Error α) :
    Tells c [] (.ofExcept r : Action (Observation σ) α) :=
  fun s before => ⟨[], congrArg (Observation.mk s) (List.append_nil before).symm, rfl⟩

theorem tells_pure (a : α) : Tells c [] (pure a : Action (Observation σ) α) :=
  tells_ofExcept (.ok a)

theorem tells_ofTraced (t : Traced α) : Tells c [] (.ofTraced t : Action (Observation σ) α) :=
  fun s before =>
    ⟨[], congrArg (Observation.mk s) (List.append_nil before).symm, logLines_asked t.asked⟩

theorem tells_log (level : LogLevel) (message : String) :
    Tells c [⟨level, message⟩] (.log level message : Action (Observation σ) Unit) :=
  fun s before => ⟨[], congrArg (Observation.mk s) (List.append_nil before).symm, rfl⟩

/-- A method of the observed connector logs what the call that it notes does. -/
theorem tells_noted {call : Invocation} {act : Action σ α} {f : α → Reply}
    (hcall : c.perform call = f <$> act) : Tells c [] (Connector.noted call act) := by
  intro s before
  have hstate : (c.perform call s).state = (act s).state := by rw [hcall, Action.state_map]
  have hevents : (c.perform call s).events = (act s).events := by rw [hcall, Action.events_map]
  refine ⟨[call], congrArg (Observation.mk · (before ++ [call])) hstate.symm, ?_⟩
  show logLines (act s).events = [] ++ (logLines (c.perform call s).events ++ [])
  rw [hevents, List.append_nil, List.nil_append]

namespace Tells

variable {own : List LogLine}

theorem bind {act : Action (Observation σ) α} {next : α → Action (Observation σ) β}
    (h : Tells c own act) (hnext : ∀ a, Tells c [] (next a)) : Tells c own (act >>= next) := by
  intro s before
  obtain ⟨calls, hstate, hlog⟩ := h s before
  cases hresult : (act ⟨s, before⟩).result with
  | error e =>
    rw [Action.bind_of_error hresult]
    exact ⟨calls, hstate, hlog⟩
  | ok a =>
    obtain ⟨calls', hstate', hlog'⟩ := hnext a (c.after calls s) (before ++ calls)
    rw [Action.bind_of_ok hresult, hstate]
    refine ⟨calls ++ calls', ?_, ?_⟩
    · rw [c.after_append, ← List.append_assoc]
      exact hstate'
    · rw [c.logOf_append, logLines_append, hlog, hlog', List.nil_append, List.append_assoc]

/-- Reporting an action that is begun with a line puts that line before and one after the rest. -/
theorem reported {act : Action (Observation σ) α} (h : Tells c own act) (message : String)
    (done : α → String) (failed : Error → String) :
    Recounts c own (Action.log .debug message >>= fun _ => act.reported done failed) := by
  have hdebug : LogLevel.debug ≠ .info := by decide
  have hwarn : LogLevel.warn ≠ .info := by decide
  intro s before
  obtain ⟨calls, hstate, hlog⟩ := h s before
  cases hresult : (act ⟨s, before⟩).result with
  | error e =>
    refine ⟨calls, ⟨.debug, message⟩, ⟨.warn, failed e⟩, hstate, ?_, hdebug, hwarn⟩
    rw [← hlog]
    show logLines (.log .debug message :: (act.reported done failed ⟨s, before⟩).events) = _
    simp only [Action.reported, hresult]
    simp [logLines, Event.logLine?]
  | ok a =>
    refine ⟨calls, ⟨.debug, message⟩, ⟨.debug, done a⟩, hstate, ?_, hdebug, hdebug⟩
    rw [← hlog]
    show logLines (.log .debug message :: (act.reported done failed ⟨s, before⟩).events) = _
    simp only [Action.reported, hresult]
    simp [logLines, Event.logLine?]

end Tells

theorem Recounts.map {own : List LogLine} {act : Action (Observation σ) α} (h : Recounts c own act)
    (f : α → β) : Recounts c own (f <$> act) := by
  intro s before
  rw [Action.state_map, Action.events_map]
  exact h s before

end

section

variable (c : Connector σ) (cls : ObjectClass) (uid : Uid) (options : Options)

theorem tells_fetchAttributes (names : List String) :
    Tells c [] (fetchAttributes c.observed cls uid names options) := by
  refine Tells.bind (tells_noted rfl) fun found => ?_
  cases found with
  | none => exact tells_ofExcept _
  | some record => exact tells_pure _

theorem tells_reconcile (changes : AttributeSet) (mode : UpdateMode) :
    Tells c [] (reconcile c.observed cls uid changes mode options) := by
  refine (tells_ofExcept _).bind fun path => ?_
  cases path with
  | native => cases mode <;> exact tells_noted rfl
  | fetchAndMerge => exact (tells_fetchAttributes c cls uid options _).bind fun _ => tells_noted rfl

theorem tells_reconcileDeltas (deltas : DeltaSet) :
    Tells c [] (reconcileDeltas c.observed cls uid deltas options) :=
  (tells_ofExcept _).bind fun _ => (tells_fetchAttributes c cls uid options _).bind fun _ =>
    (tells_ofTraced _).bind fun _ => (tells_noted rfl).bind fun _ => tells_pure _

end

/-- A request to change single values of an object, or to apply deltas to it. -/
inductive Amendment where
  | values (mode : UpdateMode) (objectClass : ObjectClass) (uid : Uid) (values : AttributeSet)
      (options : Options)
  | deltas (objectClass : ObjectClass) (uid : Uid) (deltas : DeltaSet) (options : Options)

namespace Amendment

def request : Amendment → Invocation
  | .values mode cls uid vs o => .changeValues mode cls uid vs o
  | .deltas cls uid ds o => .updateDelta cls uid ds o

/-- The line that says by which path an amendment goes. -/
def announcement : Amendment → Path → LogLine
  | .values mode cls uid _ _, path =>
    ⟨.info, mode.label ++ " values on " ++ Facade.place cls uid ++ " via " ++ path.label ++ " path"⟩
  | .deltas cls uid _ _, path =>
    ⟨.info, "delta update on " ++ Facade.place cls uid ++ (" via " ++ path.label ++ " path")⟩

/-- The path open to an amendment, by what a resource offers and what is configured. -/
def openPath (capabilities : Capabilities) (config : Config) : Amendment → Except Error Path
  | .values .. => Path.select capabilities
  | .deltas .. =>
    if capabilities.supports .complexUpdateDelta then .ok .native
    else if config.emulateDeltas then .ok .fetchAndMerge
    else .error (.unsupported .complexUpdateDelta)

/-- The path chosen for an amendment that passes the checks. -/
def path (capabilities : Capabilities) (config : Config) (a : Amendment) : Except Error Path := do
  config.check a.request
  a.openPath capabilities config

/-- The lines that announce the path chosen for an amendment: one, or none if none is. -/
def announcements (capabilities : Capabilities) (config : Config) (a : Amendment) : List LogLine :=
  (a.path capabilities config).toOption.toList.map a.announcement

/-- Whether deltas pass the checks and are to be emulated, on a resource that cannot look up and
replace. -/
def Stranded (capabilities : Capabilities) (config : Config) (a : Amendment) : Prop :=
  match a with
  | .values .. => False
  | .deltas .. =>
    ¬ a.request.Barred config ∧ capabilities.supports .complexUpdateDelta = false ∧
      config.emulateDeltas = true ∧
      ¬ (capabilities.supports .search = true ∧ capabilities.supports .update = true)

/-- Whether the path announced for an amendment, if any, is the one that its calls take. -/
structure Truthful (capabilities : Capabilities) (config : Config) (a : Amendment)
    (announced : Option Path) (calls : List Invocation) : Prop where
  announced_iff : announced.isSome = true ↔ calls ≠ []
  native_iff : announced = some .native ↔ ∃ call ∈ calls, call.operation = a.request.operation
  fetchAndMerge_iff : announced = some .fetchAndMerge ↔ ∃ call ∈ calls, call.operation = .search
  of_rejected : a.request.Barred config ∨
    (a.request.missing capabilities config).isSome = true → announced = none

end Amendment

/-- An action that announces the path chosen for it, and then goes on by that path. -/
theorem tells_announced {c : Connector σ} (path : Except Error Path) (level : LogLevel)
    (message : Path → String) {next : Path → Action (Observation σ) α}
    (h : ∀ p, Tells c [] (next p)) :
    Tells c (path.toOption.toList.map fun p => ⟨level, message p⟩)
      (Action.ofExcept path >>= fun p => Action.log level (message p) >>= fun _ => next p) := by
  cases path with
  | error e => exact tells_ofExcept _
  | ok p => exact (tells_log level (message p)).bind fun _ => h p

namespace Facade

section

variable (f : Facade σ) (cls : ObjectClass) (uid : Uid) (options : Options)

theorem recounts_changeValues (mode : UpdateMode) (vs : AttributeSet) :
    Recounts f.connector
      ((Amendment.values mode cls uid vs options).announcements f.connector.capabilities f.config)
      (f.observed.changeValues mode cls uid vs options) := by
  refine Tells.reported ?_ _ _ _
  rw [← Action.ofExcept_bind_bind]
  exact tells_announced _ _ _ fun _ => tells_reconcile f.connector cls uid options vs mode

theorem recounts_updateDelta (ds : DeltaSet) :
    Recounts f.connector
      ((Amendment.deltas cls uid ds options).announcements f.connector.capabilities f.config)
      (f.observed.updateDelta cls uid ds options) := by
  have hcheck : f.config.check (.updateDelta cls uid ds options) = checkDeltas cls ds := rfl
  refine Tells.reported ?_ _ _ _
  rw [Amendment.announcements, Amendment.path, Amendment.request, hcheck]
  cases checkDeltas cls ds with
  | error e => exact tells_ofExcept _
  | ok u =>
    show Tells _
      (List.map _ (if f.connector.capabilities.supports .complexUpdateDelta then _
        else if f.config.emulateDeltas then _ else _ : Except Error Path).toOption.toList)
      (if f.connector.capabilities.supports .complexUpdateDelta then _
        else if f.config.emulateDeltas then _ else _)
    by_cases hnative : f.connector.capabilities.supports .complexUpdateDelta = true
    · rw [if_pos hnative, if_pos hnative]
      exact (tells_log _ _).bind fun _ => tells_noted rfl
    · rw [if_neg hnative, if_neg hnative]
      by_cases hemulate : f.config.emulateDeltas = true
      · rw [if_pos hemulate, if_pos hemulate]
        exact (tells_log _ _).bind fun _ => tells_reconcileDeltas f.connector cls uid options ds
      · rw [if_neg hemulate, if_neg hemulate]
        exact tells_ofExcept _

end

/-- An amendment logs that it begins, the path announced, what its calls log, and how it ended. -/
theorem recounts_perform (f : Facade σ) (a : Amendment) :
    Recounts f.connector (a.announcements f.connector.capabilities f.config)
      (f.observed.perform a.request) := by
  cases a with
  | values mode cls uid vs o =>
    cases mode <;> exact (f.recounts_changeValues cls uid o _ vs).map _
  | deltas cls uid ds o => exact (f.recounts_updateDelta cls uid o ds).map _

end Facade

/-- Where both are offered, writing back looks up first, and can only replace after that. -/
theorem WritesBack.calls_of_supports {c : Connector σ} {cls : ObjectClass} {uid : Uid}
    {names : List String} {options : Options} {payload : AttributeSet → AttributeSet} {s s' : σ}
    {calls : List Invocation} {result : Except Error Uid}
    (h : WritesBack c cls uid names options payload s calls result s')
    (hsearch : c.capabilities.supports .search = true)
    (hupdate : c.capabilities.supports .update = true) :
    ∃ first rest, calls = first :: rest ∧ first.operation = .search ∧
      ∀ call ∈ rest, call.operation = .update := by
  cases h with
  | noSearch hsearch' => simp [hsearch] at hsearch'
  | noUpdate _ hupdate' => simp [hupdate] at hupdate'
  | failed | absent => exact ⟨_, [], rfl, rfl, fun _ h => nomatch h⟩
  | replaced =>
    refine ⟨_, _, rfl, rfl, fun call hcall => ?_⟩
    rw [List.mem_singleton.1 hcall]
    rfl

namespace Amendment

/-- The ways in which an amendment goes: what is announced, and the calls then made. -/
inductive Goes (a : Amendment) : Option Path → List Invocation → Prop where
  | nowhere : Goes a none []
  | native : Goes a (some .native) [a.request]
  | fetchAndMerge {first : Invocation} {rest : List Invocation} (hfirst : first.operation = .search)
    (hrest : ∀ call ∈ rest, call.operation = .update) :
    Goes a (some .fetchAndMerge) (first :: rest)

theorem operation_request (a : Amendment) :
    a.request.operation ≠ .search ∧ a.request.operation ≠ .update := by
  cases a <;> exact ⟨nofun, nofun⟩

theorem Goes.truthful {capabilities : Capabilities} {config : Config} {a : Amendment}
    {announced : Option Path} {calls : List Invocation} (h : a.Goes announced calls)
    (hrejected : a.request.Barred config ∨
      (a.request.missing capabilities config).isSome = true → calls = []) :
    a.Truthful capabilities config announced calls := by
  obtain ⟨hsearch, hupdate⟩ := a.operation_request
  cases h with
  | nowhere => exact ⟨by simp, by simp, by simp, fun _ => rfl⟩
  | native =>
    refine ⟨by simp, by simp, by simpa using hsearch, fun h => ?_⟩
    cases hrejected h
  | fetchAndMerge hfirst hrest =>
    refine ⟨by simp, ?_, ?_, fun h => ?_⟩
    · refine ⟨nofun, fun ⟨call, hcall, hop⟩ => ?_⟩
      rcases List.mem_cons.1 hcall with rfl | hcall
      · exact absurd (hop.symm.trans hfirst) hsearch
      · exact absurd (hop.symm.trans (hrest call hcall)) hupdate
    · exact ⟨fun _ => ⟨_, List.mem_cons_self, hfirst⟩, fun _ => rfl⟩
    · cases hrejected h

section

variable {capabilities : Capabilities} {config : Config} {a : Amendment}

/-- Where a path needs a look-up and a replacement, nothing is missing if both are offered. -/
theorem supports_of_missing_eq_none
    (h : [Operation.search, .update].find? (fun op => !capabilities.supports op) = none) :
    capabilities.supports .search = true ∧ capabilities.supports .update = true := by
  simpa using h

theorem path_of_barred (h : a.request.Barred config) :
    ∃ e, a.path capabilities config = .error e := by
  obtain ⟨fault, hfault⟩ := (Blames.check config a.request).refused h
  exact ⟨.invalidArgument fault, by rw [path, hfault]; rfl⟩

theorem path_of_not_barred (h : ¬ a.request.Barred config) :
    a.path capabilities config = a.openPath capabilities config := by
  rw [path, (Blames.check config a.request).passed h]
  rfl

/-- An amendment that is rejected is not announced, unless it is stranded. -/
theorem path_of_rejected (hstranded : ¬ a.Stranded capabilities config)
    (h : a.request.Barred config ∨ (a.request.missing capabilities config).isSome = true) :
    ∃ e, a.path capabilities config = .error e := by
  by_cases hbarred : a.request.Barred config
  · exact path_of_barred hbarred
  · obtain ⟨op, hop⟩ := Option.isSome_iff_exists.1 (h.resolve_left hbarred)
    rw [path_of_not_barred hbarred]
    cases a with
    | values mode cls uid vs o =>
      refine ⟨.unsupported op, ?_⟩
      unfold Invocation.missing request Invocation.needs at hop
      unfold openPath Path.select
      cases hnative : capabilities.supports .updateAttributeValues with
      | true => simp [hnative] at hop
      | false =>
        simp only [hnative, Bool.false_eq_true, ↓reduceIte] at hop ⊢
        rw [Capabilities.requireFetchAndReplace_eq_find?, hop]
        rfl
    | deltas cls uid ds o =>
      refine ⟨.unsupported .complexUpdateDelta, ?_⟩
      unfold Invocation.missing request Invocation.needs at hop
      unfold openPath
      cases hnative : capabilities.supports .complexUpdateDelta with
      | true => simp [hnative] at hop
      | false =>
        simp only [hnative, Bool.false_eq_true, ↓reduceIte] at hop ⊢
        refine if_neg fun hemulate => hstranded ⟨hbarred, hnative, hemulate, ?_⟩
        rintro ⟨hsearch, hupdate⟩
        simp [hemulate, hsearch, hupdate] at hop

/-- A stranded amendment is announced, though it misses an operation. -/
theorem of_stranded (h : a.Stranded capabilities config) :
    a.path capabilities config = .ok .fetchAndMerge ∧ ¬ a.request.Barred config ∧
      ∃ op, a.request.missing capabilities config = some op := by
  cases a with
  | values => cases h
  | deltas cls uid ds o =>
    obtain ⟨hbarred, hnative, hemulate, hoffered⟩ := h
    rw [path_of_not_barred hbarred]
    unfold openPath
    refine ⟨by rw [hnative, hemulate]; rfl, hbarred, Option.isSome_iff_exists.1 ?_⟩
    unfold Invocation.missing request Invocation.needs
    simp only [hnative, hemulate, Bool.false_eq_true, ↓reduceIte]
    rw [Option.isSome_iff_ne_none]
    exact fun hnone => hoffered (supports_of_missing_eq_none hnone)

end

end Amendment

namespace Facade

variable {f : Facade σ} {a : Amendment}

/-- An amendment that is not rejected goes by the path announced. -/
theorem goes_of_accepted (hbarred : ¬ a.request.Barred f.config)
    (hmissing : a.request.missing f.connector.capabilities f.config = none) {s : σ}
    {before calls : List Invocation}
    (h : (f.observed.perform a.request ⟨s, before⟩).state.calls = before ++ calls) :
    a.Goes (a.path f.connector.capabilities f.config).toOption calls := by
  rw [Amendment.path_of_not_barred hbarred]
  cases a with
  | values mode cls uid vs o =>
    unfold Invocation.missing Amendment.request Invocation.needs at hmissing
    have hstate : (f.observed.perform (.changeValues mode cls uid vs o) ⟨s, before⟩).state =
        (reconcile f.connector.observed cls uid vs mode o ⟨s, before⟩).state :=
      (perform_of_not_barred (f := f.observed) hbarred ⟨s, before⟩).2.trans (Action.state_map ..)
    obtain ⟨calls', hcalls', hways⟩ := calls_reconcile f.connector cls uid o mode vs s before
    rw [Amendment.request, hstate, hcalls'] at h
    obtain rfl := List.append_cancel_left h
    unfold Amendment.openPath Path.select
    cases hnative : f.connector.capabilities.supports .updateAttributeValues with
    | true =>
      rw [if_pos hnative] at hways
      rw [hways.1]
      exact .native
    | false =>
      simp only [hnative, Bool.false_eq_true, ↓reduceIte] at hmissing hways ⊢
      obtain ⟨hsearch, hupdate⟩ := Amendment.supports_of_missing_eq_none hmissing
      obtain ⟨first, rest, rfl, hfirst, hrest⟩ := hways.calls_of_supports hsearch hupdate
      rw [requireFetchAndReplace_eq, if_pos hsearch, if_pos hupdate]
      exact .fetchAndMerge hfirst hrest
  | deltas cls uid ds o =>
    unfold Invocation.missing Amendment.request Invocation.needs at hmissing
    unfold Amendment.openPath
    rw [Amendment.request] at h
    cases hnative : f.connector.capabilities.supports .complexUpdateDelta with
    | true =>
      rw [f.calls_of_native_deltas hbarred hnative] at h
      obtain rfl := List.append_cancel_left h
      exact .native
    | false =>
      cases hemulate : f.config.emulateDeltas with
      | false => simp [hemulate, hnative] at hmissing
      | true =>
        simp only [hnative, hemulate, Bool.false_eq_true, ↓reduceIte] at hmissing ⊢
        obtain ⟨calls', result, hcalls', hways⟩ :=
          f.calls_of_emulated_deltas hbarred hnative hemulate s before
        rw [hcalls'] at h
        obtain rfl := List.append_cancel_left h
        obtain ⟨hsearch, hupdate⟩ := Amendment.supports_of_missing_eq_none hmissing
        obtain ⟨first, rest, rfl, hfirst, hrest⟩ := hways.calls_of_supports hsearch hupdate
        exact .fetchAndMerge hfirst hrest

end Facade

/-- An amendment logs a line when it begins, one for the path announced, what its calls log, and a
line when it ends. The path announced is the one taken, and none is announced if the amendment is
rejected, unless it is stranded: then a path is announced, but no call is made. -/
theorem announced_path_taken_iff (c : Connector σ) (config : Config) (a : Amendment) (s : σ)
    (before : List Invocation) :
    let o := (Facade.mk c.observed config).perform a.request ⟨s, before⟩
    let announced := (a.path c.capabilities config).toOption
    (o.result = ((Facade.mk c config).perform a.request s).result ∧
      o.state.resource = ((Facade.mk c config).perform a.request s).state ∧
      o.events = ((Facade.mk c config).perform a.request s).events) ∧
    ∃ calls opening closing, o.state.calls = before ++ calls ∧
      logLines o.events = opening ::
        (announced.toList.map a.announcement ++ c.logOf calls s ++ [closing]) ∧
      opening.level ≠ .info ∧ closing.level ≠ .info ∧
      (a.Truthful c.capabilities config announced calls ↔ ¬ a.Stranded c.capabilities config) ∧
      (a.Stranded c.capabilities config → announced = some .fetchAndMerge ∧ calls = [] ∧
        ∃ op, o.result = .error (.unsupported op)) := by
  intro o announced
  have hmirrors := (Facade.mk c config).mirrors_perform a.request
  obtain ⟨calls, opening, closing, hstate, hlog, hopening, hclosing⟩ :=
    (Facade.mk c config).recounts_perform a s before
  have hcalls : o.state.calls = before ++ calls := congrArg Observation.calls hstate
  have hrejected (h : a.request.Barred config ∨
      (a.request.missing c.capabilities config).isSome = true) : calls = [] := by
    have hsame : o.state = ⟨s, before⟩ :=
      Facade.state_of_rejected (f := (Facade.mk c config).observed) h ⟨s, before⟩
    rw [hsame] at hcalls
    exact List.self_eq_append_right.1 hcalls
  refine ⟨⟨hmirrors.result _, hmirrors.resource _, hmirrors.events _⟩, calls, opening, closing,
    hcalls, hlog, hopening, hclosing, ⟨fun htruthful hstranded => ?_, fun hstranded => ?_⟩,
    fun hstranded => ?_⟩
  · obtain ⟨hpath, -, op, hop⟩ := Amendment.of_stranded hstranded
    have hannounced : announced = some .fetchAndMerge := congrArg Except.toOption hpath
    exact htruthful.announced_iff.1 (by rw [hannounced]; rfl) (hrejected (.inr (by rw [hop]; rfl)))
  · refine Amendment.Goes.truthful ?_ hrejected
    by_cases h : a.request.Barred config ∨ (a.request.missing c.capabilities config).isSome = true
    · obtain ⟨e, he⟩ := Amendment.path_of_rejected hstranded h
      have hannounced : announced = none := congrArg Except.toOption he
      rw [hannounced, hrejected h]
      exact .nowhere
    · obtain ⟨hbarred, hmissing⟩ := not_or.1 h
      exact Facade.goes_of_accepted (f := ⟨c, config⟩) hbarred
        (Option.not_isSome_iff_eq_none.1 hmissing) hcalls
  · obtain ⟨hpath, hbarred, op, hop⟩ := Amendment.of_stranded hstranded
    exact ⟨congrArg Except.toOption hpath, hrejected (.inr (by rw [hop]; rfl)), op,
      (Facade.perform_of_missing (f := (Facade.mk c config).observed) hbarred hop _).1⟩

/-- A mailbox for Bob, as a delta. -/
def bobsMailbox : Amendment :=
  .deltas .account Memory.bob
    ⟨[.complex ⟨"mailbox", by decide⟩ [.add [.string "b@x"]]]⟩ .default

/-- On a resource that offers nothing, a path is announced for Bob's mailbox; no call is made. -/
theorem bobsMailbox_misannounced :
    let o := (Facade.mk (Memory.connector .empty fun _ => Memory.bob).observed .default).perform
      bobsMailbox.request ⟨Memory.empty, []⟩
    o.result = .error (.unsupported .search) ∧ o.state.calls = [] ∧
      logLines o.events =
        [⟨.debug, "complex update delta on __ACCOUNT__/bob for [\"mailbox\"]"⟩,
          ⟨.info, "delta update on __ACCOUNT__/bob via fetch-and-merge path"⟩,
          ⟨.warn, "complex update delta failed: Connector does not support operation 'search'"⟩] ∧
      ¬ ((∃ path, bobsMailbox.announcement path ∈ logLines o.events) ↔ o.state.calls ≠ []) := by
  intro o
  have hcalls : o.state.calls = [] := rfl
  have hlog : logLines o.events =
      [⟨.debug, "complex update delta on __ACCOUNT__/bob for [\"mailbox\"]"⟩,
        ⟨.info, "delta update on __ACCOUNT__/bob via fetch-and-merge path"⟩,
        ⟨.warn, "complex update delta failed: Connector does not support operation 'search'"⟩] := by
    decide +kernel
  refine ⟨rfl, hcalls, hlog, fun h => ?_⟩
  refine h.1 ⟨.fetchAndMerge, ?_⟩ hcalls
  rw [hlog]
  decide +kernel

end Provisioning
