import Provisioning.Action

/-!
# What actions answer and leave behind

The result and the final state of a composed action, read off those of its parts. A composed action
binds the results of its parts, and runs its second part in the state that the first one left, if
the first one succeeded.
-/
namespace Provisioning

variable {σ τ α β : Type}

theorem except_map_map {γ : Type} (r : Except Error α) (f : α → β) (g : β → γ) :
    (r.map f).map g = r.map fun a => g (f a) := by
  cases r <;> rfl

theorem of_map_ok {r : Except Error α} {f : α → β} {b : β} (h : r.map f = .ok b) :
    ∃ a, r = .ok a ∧ f a = b := by
  cases r with
  | error e => cases h
  | ok a =>
    cases h
    exact ⟨a, rfl, rfl⟩

theorem of_map_error {r : Except Error α} {f : α → β} {e : Error} (h : r.map f = .error e) :
    r = .error e := by
  cases r with
  | error e' =>
    cases h
    rfl
  | ok a => cases h

theorem bind_eq_ok_iff {ε : Type} {r : Except ε α} {f : α → Except ε β} {b : β} :
    (r >>= f) = .ok b ↔ ∃ a, r = .ok a ∧ f a = .ok b := by
  cases r with
  | error e => exact ⟨nofun, nofun⟩
  | ok a => exact ⟨fun h => ⟨a, rfl, h⟩, fun ⟨_, ha, h⟩ => Except.ok.inj ha ▸ h⟩

theorem bind_eq_error_iff {ε : Type} {r : Except ε α} {f : α → Except ε β} {e : ε} :
    (r >>= f) = .error e ↔ r = .error e ∨ ∃ a, r = .ok a ∧ f a = .error e := by
  cases r with
  | error e' => exact ⟨fun h => .inl (by cases h; rfl), fun | .inl h => by cases h; rfl⟩
  | ok a =>
    refine ⟨fun h => .inr ⟨a, rfl, h⟩, ?_⟩
    rintro (h | ⟨a', ha, h⟩)
    · cases h
    · exact Except.ok.inj ha ▸ h

theorem of_bind_ok {r : Except Error α} {next : α → Except Error β} {b : β}
    (h : (r >>= next) = .ok b) : ∃ a, r = .ok a ∧ next a = .ok b :=
  bind_eq_ok_iff.1 h

theorem of_mapError_ok {ε : Type} {r : Except ε α} {f : ε → Error} {a : α}
    (h : r.mapError f = .ok a) : r = .ok a := by
  cases r with
  | error e => cases h
  | ok b =>
    cases h
    rfl

theorem of_mapError_error {ε : Type} {r : Except ε α} {f : ε → Error} {e : Error}
    (h : r.mapError f = .error e) : ∃ e', r = .error e' ∧ f e' = e := by
  cases r with
  | error e' =>
    cases h
    exact ⟨e', rfl, rfl⟩
  | ok a => cases h

namespace Action

theorem result_bind (act : Action σ α) (next : α → Action σ β) (s : σ) :
    ((act >>= next) s).result = (act s).result >>= fun a => (next a (act s).state).result := by
  cases h : (act s).result with
  | ok a => rw [bind_of_ok h]; rfl
  | error e => rw [bind_of_error h]; rfl

theorem state_bind (act : Action σ α) (next : α → Action σ β) (s : σ) :
    ((act >>= next) s).state =
      match (act s).result with
      | .ok a => (next a (act s).state).state
      | .error _ => (act s).state := by
  cases h : (act s).result with
  | ok a => rw [bind_of_ok h]
  | error e => rw [bind_of_error h]

/-- Actions that continue alike, but for their events, lead to the same result and state. -/
theorem bind_congr_effects (act : Action σ α) {next next' : α → Action σ β}
    (h : ∀ a s, (next a s).result = (next' a s).result ∧ (next a s).state = (next' a s).state)
    (s : σ) : ((act >>= next) s).result = ((act >>= next') s).result ∧
      ((act >>= next) s).state = ((act >>= next') s).state := by
  rw [result_bind, result_bind, state_bind, state_bind]
  cases (act s).result with
  | error e => exact ⟨rfl, rfl⟩
  | ok a => exact h a _

@[simp] theorem result_pure (a : α) (s : σ) : ((Pure.pure a : Action σ α) s).result = .ok a := rfl
@[simp] theorem state_pure (a : α) (s : σ) : ((Pure.pure a : Action σ α) s).state = s := rfl

@[simp] theorem result_map (f : α → β) (act : Action σ α) (s : σ) :
    ((f <$> act) s).result = (act s).result.map f := by
  rw [map_eq_pure_bind, result_bind]
  cases (act s).result <;> rfl

@[simp] theorem state_map (f : α → β) (act : Action σ α) (s : σ) :
    ((f <$> act) s).state = (act s).state := by
  rw [map_eq_pure_bind, state_bind]
  cases (act s).result <;> rfl

@[simp] theorem result_ofExcept (r : Except Error α) (s : σ) : (ofExcept r s).result = r := rfl
@[simp] theorem state_ofExcept (r : Except Error α) (s : σ) : (ofExcept r s).state = s := rfl

theorem result_ofTraced_bind (t : Traced α) (next : α → Action σ β) (s : σ) :
    ((ofTraced t >>= next) s).result = (next t.result s).result := rfl

theorem state_ofTraced_bind (t : Traced α) (next : α → Action σ β) (s : σ) :
    ((ofTraced t >>= next) s).state = (next t.result s).state := rfl

/-- A log record first changes neither the result nor the state. -/
@[simp] theorem result_log_bind (level : LogLevel) (message : String) (act : Action σ α) (s : σ) :
    ((log level message >>= fun _ => act) s).result = (act s).result := by
  rw [result_bind]
  rfl

@[simp] theorem state_log_bind (level : LogLevel) (message : String) (act : Action σ α) (s : σ) :
    ((log level message >>= fun _ => act) s).state = (act s).state := by
  rw [state_bind]
  rfl

/-- A check that passes leaves the rest to be done; one that fails ends the action at once. -/
theorem ofExcept_ok_bind (a : α) (next : α → Action σ β) :
    (ofExcept (.ok a) >>= next) = next a := rfl

theorem ofExcept_error_bind (e : Error) (next : α → Action σ β) :
    (ofExcept (.error e) >>= next) = fail e := rfl

end Action

end Provisioning
