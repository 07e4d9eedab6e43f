import Provisioning.Facade.Checks
import Provisioning.Reconcile

/-!
# The facade

What callers hold: a connector and a configuration. Each operation checks its arguments, then what
the connector offers, takes the native or the emulated path, and logs how it began and ended.
Errors are logged and passed on unchanged.
-/
namespace Provisioning

structure Facade (σ : Type) where
  connector : Connector σ
  config : Config

namespace Facade

variable {σ : Type}

/-- Where an object is, in log messages. -/
def place (cls : ObjectClass) (uid : Uid) : String := cls.text ++ "/" ++ uid.text

/-- What is logged of an operation that fails. The words of the JSON reader are left out. -/
def failed (operation : String) (e : Error) : String :=
  operation ++ " failed: " ++ e.message.getD ""

/-- Reports the uid that an operation returned, or its failure. -/
def reportUid (operation : String) (act : Action σ Uid) : Action σ Uid :=
  act.reported (fun uid => operation ++ " completed with uid " ++ uid.text) (failed operation)

def create (f : Facade σ) (cls : ObjectClass) (attributes : AttributeSet) (options : Options) :
    Action σ Uid := do
  .log .debug ("create " ++ cls.text ++ " with attributes " ++ Text.quoteList attributes.names)
  reportUid "create" do
    .ofExcept (checkClass cls)
    .ofExcept (checkAttributes .createAttributes attributes)
    .ofExcept (f.connector.capabilities.require .create)
    f.connector.create cls attributes options

def update (f : Facade σ) (cls : ObjectClass) (uid : Uid) (attributes : AttributeSet)
    (options : Options) : Action σ Uid := do
  .log .debug ("update " ++ place cls uid ++ " replacing " ++ Text.quoteList attributes.names)
  reportUid "update" do
    .ofExcept (checkClass cls)
    .ofExcept (checkAttributes .replaceAttributes attributes)
    .ofExcept (f.connector.capabilities.require .update)
    f.connector.update cls uid attributes options

/-- Adds or removes attribute values. -/
def changeValues (f : Facade σ) (mode : UpdateMode) (cls : ObjectClass) (uid : Uid)
    (values : AttributeSet) (options : Options) : Action σ Uid := do
  .log .debug
    (mode.label ++ " values of " ++ Text.quoteList values.names ++ " on " ++ place cls uid)
  reportUid (mode.label ++ " values") do
    .ofExcept (checkValueChanges f.config cls values)
    let path ← .ofExcept (Path.select f.connector.capabilities)
    .log .info (mode.label ++ " values on " ++ place cls uid ++ " via " ++ path.label ++ " path")
    reconcile f.connector cls uid values mode options

def addValues (f : Facade σ) : ObjectClass → Uid → AttributeSet → Options → Action σ Uid :=
  f.changeValues .add

def removeValues (f : Facade σ) : ObjectClass → Uid → AttributeSet → Options → Action σ Uid :=
  f.changeValues .remove

/-- Applies deltas, natively if the connector offers that, else emulated if configured. -/
def updateDelta (f : Facade σ) (cls : ObjectClass) (uid : Uid) (deltas : DeltaSet)
    (options : Options) : Action σ DeltaSet := do
  .log .debug
    ("complex update delta on " ++ place cls uid ++ " for " ++ Text.quoteList deltas.names)
  let act : Action σ DeltaSet := do
    .ofExcept (checkDeltas cls deltas)
    if f.connector.capabilities.supports .complexUpdateDelta then
      .log .info ("delta update on " ++ place cls uid ++ " via native path")
      f.connector.updateDelta cls uid deltas options
    else if f.config.emulateDeltas then
      .log .info ("delta update on " ++ place cls uid ++ " via fetch-and-merge path")
      reconcileDeltas f.connector cls uid deltas options
    else .fail (.unsupported .complexUpdateDelta)
  act.reported
    (fun ds => "complex update delta completed with " ++ toString ds.size ++ " side effects")
    (failed "complex update delta")

def getObject (f : Facade σ) (cls : ObjectClass) (uid : Uid) (options : Options) :
    Action σ (Option Record) := do
  .log .debug ("get " ++ place cls uid)
  let act : Action σ (Option Record) := do
    .ofExcept (f.connector.capabilities.require .search)
    f.connector.getObject cls uid options
  act.reported
    (fun found => "get completed, found: " ++ if found.isSome then "true" else "false")
    (failed "get")

def delete (f : Facade σ) (cls : ObjectClass) (uid : Uid) (options : Options) :
    Action σ Unit := do
  .log .debug ("delete " ++ place cls uid)
  let act : Action σ Unit := do
    .ofExcept (checkClass cls)
    .ofExcept (f.connector.capabilities.require .delete)
    f.connector.delete cls uid options
  act.reported (fun _ => "delete completed") (failed "delete")

end Facade

end Provisioning
