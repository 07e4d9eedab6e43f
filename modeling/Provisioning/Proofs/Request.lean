import Provisioning.Connector.Observed
import Provisioning.Facade
import Provisioning.Proofs.Action

/-!
# Requests and runs

A request is given by the method that it names, with its arguments. It can be made of a connector
or of the facade in front of it. A run makes one request after the other, whatever they answer, and
records each with the states around it.
-/
namespace Provisioning

variable {σ : Type}

/-- What a request answers if it succeeds. -/
inductive Reply where
  | uid (uid : Uid)
  | found (record : Option Record)
  | effects (deltas : DeltaSet)
  | done

/-- Makes a request of the connector itself. -/
def Connector.perform (c : Connector σ) : Invocation → Action σ Reply
  | .create cls as o => Reply.uid <$> c.create cls as o
  | .getObject cls uid o => Reply.found <$> c.getObject cls uid o
  | .update cls uid as o => Reply.uid <$> c.update cls uid as o
  | .changeValues .add cls uid vs o => Reply.uid <$> c.addValues cls uid vs o
  | .changeValues .remove cls uid vs o => Reply.uid <$> c.removeValues cls uid vs o
  | .updateDelta cls uid ds o => Reply.effects <$> c.updateDelta cls uid ds o
  | .delete cls uid o => (fun _ => Reply.done) <$> c.delete cls uid o

/-- Makes a request of the facade. -/
def Facade.perform (f : Facade σ) : Invocation → Action σ Reply
  | .create cls as o => Reply.uid <$> f.create cls as o
  | .getObject cls uid o => Reply.found <$> f.getObject cls uid o
  | .update cls uid as o => Reply.uid <$> f.update cls uid as o
  | .changeValues .add cls uid vs o => Reply.uid <$> f.addValues cls uid vs o
  | .changeValues .remove cls uid vs o => Reply.uid <$> f.removeValues cls uid vs o
  | .updateDelta cls uid ds o => Reply.effects <$> f.updateDelta cls uid ds o
  | .delete cls uid o => (fun _ => Reply.done) <$> f.delete cls uid o

/-- One request of a run: the state before it, and what it led to. -/
structure Served (σ : Type) where
  request : Invocation
  before : σ
  outcome : Outcome σ Reply

/-- Makes requests of the facade, one after the other. -/
def Facade.history (f : Facade σ) : List Invocation → σ → List (Served σ)
  | [], _ => []
  | r :: rs, s =>
    let o := f.perform r s
    ⟨r, s, o⟩ :: f.history rs o.state

namespace Facade

variable (f : Facade σ)

/-- What is recorded of a run is one of its requests, made in some state. -/
theorem eq_of_mem_history {rs : List Invocation} {s : σ} {t : Served σ} (h : t ∈ f.history rs s) :
    ∃ r ∈ rs, ∃ before, t = ⟨r, before, f.perform r before⟩ := by
  induction rs generalizing s with
  | nil => cases h
  | cons r rs ih =>
    rcases List.mem_cons.1 h with rfl | h
    · exact ⟨r, List.mem_cons_self, s, rfl⟩
    · obtain ⟨r', hr', before, ht⟩ := ih h
      exact ⟨r', List.mem_cons_of_mem _ hr', before, ht⟩

/-- What holds at first, and is kept by every request of a run, holds around each of them. -/
theorem history_invariant {P : σ → Prop} {rs : List Invocation} {s : σ} (hs : P s)
    (hstep : ∀ t ∈ f.history rs s, P t.before → P t.outcome.state) :
    ∀ t ∈ f.history rs s, P t.before ∧ P t.outcome.state := by
  induction rs generalizing s with
  | nil => intro t h; cases h
  | cons r rs ih =>
    have hnext : P (f.perform r s).state := hstep ⟨r, s, f.perform r s⟩ List.mem_cons_self hs
    intro t h
    rcases List.mem_cons.1 h with rfl | h
    · exact ⟨hs, hnext⟩
    · exact ih hnext (fun u hu => hstep u (List.mem_cons_of_mem _ hu)) t h

end Facade

end Provisioning
