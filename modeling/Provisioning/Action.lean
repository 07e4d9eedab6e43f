import Provisioning.Error
import Provisioning.Traced

/-!
# Actions on a state

An action reads and changes a state, may fail, and leaves events behind: log records and filter
consultations, in the order in which they happen. A failure keeps the state and the events that
came before it. An action cannot take back events.
-/
namespace Provisioning

inductive LogLevel where
  | trace
  | debug
  | info
  | warn
  deriving DecidableEq

def LogLevel.label : LogLevel → String
  | .trace => "TRACE"
  | .debug => "DEBUG"
  | .info => "INFO"
  | .warn => "WARN"

inductive Event where
  | log (level : LogLevel) (message : String)
  | asked (consultation : Consultation)

/-- What an action leads to. -/
structure Outcome (σ α : Type) where
  result : Except Error α
  state : σ
  events : List Event

def Action (σ α : Type) : Type := σ → Outcome σ α

namespace Action

variable {σ τ α β γ : Type}

def pure (a : α) : Action σ α := fun s => ⟨.ok a, s, []⟩

/-- The first action, then, unless it failed, the one that its result gives. -/
def bind (act : Action σ α) (next : α → Action σ β) : Action σ β := fun s =>
  let o := act s
  match o.result with
  | .ok a =>
    let p := next a o.state
    ⟨p.result, p.state, o.events ++ p.events⟩
  | .error e => ⟨.error e, o.state, o.events⟩

instance : Monad (Action σ) where
  pure := pure
  bind := bind

theorem pure_apply (a : α) (s : σ) : (Pure.pure a : Action σ α) s = ⟨.ok a, s, []⟩ := rfl

/-- After a success the next action runs, and its events follow. -/
theorem bind_of_ok {act : Action σ α} {s : σ} {a : α} (h : (act s).result = .ok a)
    (next : α → Action σ β) :
    (act >>= next) s =
      ⟨(next a (act s).state).result, (next a (act s).state).state,
        (act s).events ++ (next a (act s).state).events⟩ := by
  show bind act next s = _
  simp only [bind, h]

/-- After a failure nothing more happens. -/
theorem bind_of_error {act : Action σ α} {s : σ} {e : Error} (h : (act s).result = .error e)
    (next : α → Action σ β) : (act >>= next) s = ⟨.error e, (act s).state, (act s).events⟩ := by
  show bind act next s = _
  simp only [bind, h]

theorem bind_pure_id (act : Action σ α) : (act >>= fun a => Pure.pure (id a)) = act := by
  funext s
  cases h : (act s).result with
  | ok a => rw [bind_of_ok h]; simp [pure_apply, ← h]
  | error e => rw [bind_of_error h, ← h]

theorem bind_assoc (act : Action σ α) (f : α → Action σ β) (g : β → Action σ γ) :
    act >>= f >>= g = act >>= fun a => f a >>= g := by
  funext s
  cases h : (act s).result with
  | error e =>
    have hf : ((act >>= f) s).result = .error e := by rw [bind_of_error h]
    rw [bind_of_error hf, bind_of_error h, bind_of_error h]
  | ok a =>
    cases k : (f a (act s).state).result with
    | error e =>
      have hf : ((act >>= f) s).result = .error e := by rw [bind_of_ok h, k]
      rw [bind_of_error hf, bind_of_ok h, bind_of_ok h, bind_of_error k]
    | ok b =>
      have hf : ((act >>= f) s).result = .ok b := by rw [bind_of_ok h, k]
      rw [bind_of_ok hf, bind_of_ok h, bind_of_ok h, bind_of_ok k]
      simp [List.append_assoc]

instance : LawfulMonad (Action σ) :=
  LawfulMonad.mk' _ bind_pure_id (fun _ _ => rfl) bind_assoc

/-- Does nothing but give a result or fail. -/
def ofExcept (r : Except Error α) : Action σ α := fun s => ⟨r, s, []⟩

def fail (e : Error) : Action σ α := ofExcept (.error e)

def get : Action σ σ := fun s => ⟨.ok s, s, []⟩

def modify (f : σ → σ) : Action σ Unit := fun s => ⟨.ok (), f s, []⟩

def log (level : LogLevel) (message : String) : Action σ Unit := fun s =>
  ⟨.ok (), s, [.log level message]⟩

/-- A traced result, with its consultations as events. -/
def ofTraced (t : Traced α) : Action σ α := fun s => ⟨.ok t.result, s, t.asked.map .asked⟩

/-- An action on a part of the state. -/
def onPart (view : σ → τ) (update : τ → σ → σ) (act : Action τ α) : Action σ α := fun s =>
  let o := act (view s)
  ⟨o.result, update o.state s, o.events⟩

/-- Logs how an action ended. -/
def reported (act : Action σ α) (done : α → String) (failed : Error → String) : Action σ α :=
  fun s =>
    let o := act s
    let last := match o.result with
      | .ok a => Event.log .debug (done a)
      | .error e => Event.log .warn (failed e)
    ⟨o.result, o.state, o.events ++ [last]⟩

end Action

end Provisioning
