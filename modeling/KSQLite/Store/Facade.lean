import KSQLite.Store.Lifecycle
import KSQLite.Store.Write
import KSQLite.Suspension.History

/-!
# The store facade

The public coroutines of a store: `start`, `append` and the two rebalance hooks. Each of the others
is refused unless the store is running; `append` keeps count of the appends in flight. A start that
fails closes what it opened and leaves the store new. `Operation` lists what a host does with a
store, one thing after another, and `Run` is a history of that.
-/

set_option autoImplicit false
set_option relaxedAutoImplicit false

namespace KSQLite.Store

open KSQLite.Suspension

/-- Close what a failed start opened, and let its error go on. -/
def rollback : List (Action Unit) → Error → Action Unit
  | [], error => .raise error
  | closer :: rest, error => do
    quietly closer
    rollback rest error

/-- What a start raises in place of a SQLite error. -/
def openError (path : String) : Error → Error
  | .sqlite message => .cannotOpen path message
  | error => error

/-- `migrate`: every statement commits on its own. -/
def migrate (settings : Settings) : Action Unit :=
  Program.mapError (openError settings.dbPath) do
    perform (.migrate .createSchema)
    perform (.migrate .deleteAllOwned)
    perform (.migrate .reconcile)

namespace Facade

/-- `KSQLite.start`, after the configuration was validated. -/
def start (settings : Settings) : Action Unit := do
  let memory ← observe
  if memory.runState ≠ .new then .raise .startedTwice
  else do
    (migrate settings).handle (rollback [perform .closePool])
    ((perform .startProducer).mapError (.producerNotStarted ·.text)).handle
      (rollback [perform .stopProducer, perform .closePool])
    ((perform .startAdmin).mapError (.adminNotStarted ·.text)).handle
      (rollback [perform .closeAdmin, perform .stopProducer, perform .closePool])
    remember fun memory ↦
      { memory with state := .new, consumer := none, checked := ∅, runState := .running }

/-- `_ensure_running`. -/
def ensureRunning : Action Unit := do
  let memory ← observe
  if memory.runState ≠ .running then .raise .notRunning

/-- The `finally` clause of `KSQLite.append`. -/
def leave : Action Unit :=
  remember fun memory ↦
    { memory with
      inFlight := memory.inFlight - 1
      drained := memory.drained ||
        decide (memory.runState ≠ .running ∧ memory.inFlight - 1 = 0) }

/-- `KSQLite.append`. -/
def append (settings : Settings) (source : TopicPartition) (entityKey : EntityKey)
    (payload : Payload) : Action Unit := do
  ensureRunning
  remember fun memory ↦ { memory with inFlight := memory.inFlight + 1 }
  (Store.append settings source entityKey payload).handle fun error ↦ do
    leave
    .raise error
  leave

/-- `KSQLite.on_partitions_assigned`. -/
def onPartitionsAssigned (settings : Settings) (fuel : ℕ) (assigned : List TopicPartition) :
    Action Unit := do
  ensureRunning
  Store.onPartitionsAssigned settings fuel assigned

/-- `KSQLite.on_partitions_revoked`. -/
def onPartitionsRevoked (revoked : List TopicPartition) : Action Unit := do
  ensureRunning
  Store.onPartitionsRevoked revoked

end Facade

/-- What a host does with a store. A restart constructs the store anew over the same database. -/
inductive Operation
  | start
  | append (source : TopicPartition) (entityKey : EntityKey) (payload : Payload)
  | assign (assigned : List TopicPartition)
  | revoke (revoked : List TopicPartition)
  | restart

/-- The coroutine of an operation. -/
def Operation.action (settings : Settings) (fuel : ℕ) : Operation → Action Unit
  | .start => Facade.start settings
  | .append source entityKey payload => Facade.append settings source entityKey payload
  | .assign assigned => Facade.onPartitionsAssigned settings fuel assigned
  | .revoke revoked => Facade.onPartitionsRevoked revoked
  | .restart => remember fun _ ↦ .new

/-- Operations on one store, one after another. -/
abbrev Run (settings : Settings) (conditions : Conditions) (fuel : ℕ)
    (admits : Operation → World → Outcome Error Unit → World → Prop) : World → World → Prop :=
  History (fun _ ↦ environment settings conditions) (Operation.action settings fuel) admits

end KSQLite.Store
