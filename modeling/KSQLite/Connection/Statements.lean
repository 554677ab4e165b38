import KSQLite.Suspension.Program
import Mathlib.Data.Rat.Defs

/-!
# The SQLite calls of a store

What the connection layer awaits: a connection of the pool, the statements on it, the clock and the
event loop. A call that SQLite may refuse is answered with a value or with a `Fault`. The work that
runs inside a transaction and the read of a query are awaited as a whole; what they are, and what
they return, is the `Vocabulary` of the users of the layer.
-/

set_option autoImplicit false
set_option relaxedAutoImplicit false

namespace KSQLite.Connection

open KSQLite.Suspension

/-- The works and the reads of the users of the layer, and the exceptions of theirs. -/
structure Vocabulary where
  Exception : Type
  Work : Type
  Value : Type
  Read : Type
  Rows : Read → Type

/-- What a caller of the layer sees of SQLite and of the pool: `StorageError`. -/
inductive StorageError
  | transactionFailed (message : String)
  | databaseBusy (attempts : ℕ) (busyTimeout : ℚ)
  | queryFailed (message : String)
  | poolFailure (message : String)

/-- What may be raised in the layer. -/
inductive Fault (Exception : Type)
  /-- `sqlite3.OperationalError`. -/
  | operational (message : String)
  /-- Another `sqlite3.Error`. -/
  | sqlite (message : String)
  /-- The pool was closed, or no connection became free in time. -/
  | pool (message : String)
  | storage (error : StorageError)
  /-- An exception that SQLite has nothing to do with. -/
  | other (error : Exception)

/-- `_is_busy_error`. -/
def isBusyError (message : String) : Bool :=
  message.toLower.toList.tails.any fun rest ↦
    "database is locked".toList.isPrefixOf rest || "busy".toList.isPrefixOf rest

/-- A fault that the runner retries. -/
def Fault.IsBusy {Exception : Type} : Fault Exception → Prop
  | .operational message => isBusyError message = true
  | _ => False

/-- A raw `sqlite3.Error`. -/
def Fault.isRaw {Exception : Type} : Fault Exception → Bool
  | .operational _ | .sqlite _ => true
  | _ => false

def Fault.isStorage {Exception : Type} : Fault Exception → Bool
  | .storage _ => true
  | _ => false

/-- What a connection is taken from the pool for. -/
inductive Use
  | query
  | readCheckpoint
  | write
  deriving DecidableEq

/-- Where the code rolls back: at a checkout, after an attempt that failed, or before a retry. -/
inductive Place
  | checkout (use : Use)
  | attempt
  | retry
  deriving DecidableEq

/-- What the layer awaits. -/
inductive Ask (words : Vocabulary)
  /-- `time.monotonic()`. -/
  | clock
  /-- A connection of the pool, opened if there is none. -/
  | acquire (use : Use)
  | inTransaction
  | rollback (place : Place)
  /-- `PRAGMA query_only=OFF`, at a checkout. -/
  | resetQueryOnly (use : Use)
  /-- `PRAGMA query_only`, around a query. -/
  | setQueryOnly (isOn : Bool)
  /-- `BEGIN IMMEDIATE`. -/
  | begin
  /-- `work(conn)`. -/
  | work (work : words.Work)
  | commit
  | sleep (seconds : ℚ)
  /-- A statement that returns rows. -/
  | fetch (read : words.Read)

/-- The reply to each. -/
abbrev Ask.Reply {words : Vocabulary} : Ask words → Type
  | .clock => ℚ
  | .inTransaction => Bool
  | .sleep _ => Unit
  | .work _ => Except (Fault words.Exception) words.Value
  | .fetch read => Except (Fault words.Exception) (words.Rows read)
  | _ => Except (Fault words.Exception) Unit

/-- The requests of the layer with their replies. -/
abbrev asks (words : Vocabulary) : Interface := ⟨Ask words, Ask.Reply⟩

/-- A coroutine of the layer. -/
abbrev Coroutine (words : Vocabulary) (Result : Type) : Type :=
  Program (asks words) (Fault words.Exception) Result

end KSQLite.Connection
