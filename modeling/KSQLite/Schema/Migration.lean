import KSQLite.Schema.Catalog
import KSQLite.Suspension.History
import Mathlib.Data.List.Sort
import Mathlib.Logic.Relation

/-!
# The migration

`migrate` runs in autocommit: every statement commits on its own, so a process may stop between any
two of them. It creates what every store has, empties `_owned`, compares the declared columns with
the stored ones and then the declared indexes, and adds what it does not find. `answer` is what
SQLite does with a statement, `environment` lets others write rows while a migration waits for
SQLite, and `run` is a migration that nobody interrupts. Whatever a program needs of the catalog
survives those writes (`holds_execute`), and what holds of every run holds of the undisturbed one
(`run_of_holds`).
-/

set_option autoImplicit false
set_option relaxedAutoImplicit false

namespace KSQLite.Schema

open KSQLite.Suspension
open KSQLite.Store (Database Row)

/-! ### Statements -/

/-- The statements of a migration. -/
inductive Statement
  | create (object : Object)
  | createBaseIndex (index : Index)
  | deleteAllOwned
  | tableXinfo
  | selectSchema
  | addColumn (column : GeneratedColumn)
  | indexList
  | createIndex (index : Index)
  | indexXinfo (name : String)
  deriving DecidableEq

/-- The statements that add what a host declared. -/
def Statement.AddsDeclared : Statement → Prop
  | .addColumn _ => True
  | .createIndex _ => True
  | _ => False

/-- A row of `PRAGMA index_list`. -/
structure IndexEntry where
  name : String
  unique : Bool

/-- A row of `PRAGMA index_xinfo`; the last one is for the row id, which is no key column. -/
structure IndexColumn where
  seqno : ℕ
  name : Option String
  key : Bool

/-- What a statement returns. -/
abbrev Statement.Result : Statement → Type
  | .tableXinfo => List String
  | .selectSchema => Option String
  | .indexList => List IndexEntry
  | .indexXinfo _ => List IndexColumn
  | _ => Unit

/-- SQLite answers a statement with its result or with the message of an error. -/
abbrev interface : Interface := ⟨Statement, fun statement ↦ Except String statement.Result⟩

/-- The columns of an index from a number on, and the row id. -/
def indexColumns (seqno : ℕ) : List String → List IndexColumn
  | [] => [⟨seqno, none, false⟩]
  | name :: rest => ⟨seqno, some name, true⟩ :: indexColumns (seqno + 1) rest

/-- A database file. -/
structure Storage where
  catalog : Catalog
  database : Database

namespace Storage

/-- A file that was just created. -/
def empty : Storage := ⟨.empty, .empty⟩

/-- Commit a change of the catalog, or return the error. -/
def commit (storage : Storage) : Except String Catalog → Except String Unit × Storage
  | .ok catalog => (.ok (), { storage with catalog := catalog })
  | .error message => (.error message, storage)

end Storage

/-- What SQLite answers to a statement, and what it leaves. -/
def answer (platform : Platform) (storage : Storage) :
    (statement : Statement) → Except String statement.Result × Storage
  | .create object => (.ok (), { storage with catalog := storage.catalog.create object })
  | .createBaseIndex index =>
    storage.commit (storage.catalog.createIndex platform storage.database.records index)
  | .deleteAllOwned => (.ok (), { storage with database := storage.database.deleteAllOwned })
  | .tableXinfo => (.ok storage.catalog.columnNames, storage)
  | .selectSchema =>
    (.ok (if .records ∈ storage.catalog.objects then some (storedSchema storage.catalog.columns)
      else none), storage)
  | .addColumn column => storage.commit (storage.catalog.addColumn platform column)
  | .indexList =>
    (.ok (storage.catalog.allIndexes.reverse.map fun index ↦ ⟨index.name, index.unique⟩), storage)
  | .createIndex index =>
    storage.commit (storage.catalog.createDeclaredIndex platform storage.database.records index)
  | .indexXinfo name =>
    (.ok (((storage.catalog.allIndexes.find? fun index ↦ index.key = fold name).map
      fun index ↦ indexColumns 0 index.columns).getD []), storage)

/-! ### The program -/

/-- How a migration fails. -/
inductive MigrationError
  | config (error : ConfigError)
  | migrationFailed (ddl : String)
  | sqlite (message : String)
  | assertionFailed
  deriving DecidableEq

/-- The message of an error. -/
def MigrationError.text : MigrationError → String
  | .config error => error.text
  | .migrationFailed ddl => s!"migration DDL failed: '{ddl}'"
  | .sqlite message => message
  | .assertionFailed => ""

/-- A program that runs statements. -/
abbrev Action (Value : Type) : Type := Program interface MigrationError Value

/-- `_pool.execute` and the fetches. -/
def execute (statement : Statement) : Action statement.Result := do
  match ← Program.ask statement with
  | .ok result => return result
  | .error message => .raise (.sqlite message)

/-- `_execute_migration_ddl`. -/
def executeMigrationDdl (statement : Statement) (ddl : String) : Action Unit := do
  let _ ← (execute statement).mapError fun
    | .sqlite _ => .migrationFailed ddl
    | error => error

/-- Statements one after another. -/
def executeAll : List Statement → Action Unit
  | [] => return
  | statement :: rest => do
    let _ ← execute statement
    executeAll rest

/-- The base index over the partition. -/
def partitionIndex : Index := ⟨"ix_records_tp", ["source_topic", "source_partition"], false⟩

/-- The base index over the entity key. -/
def keyIndex : Index := ⟨"ix_records_key", ["entity_key"], false⟩

/-- The base indexes. -/
def baseIndexes : List Index := [partitionIndex, keyIndex]

/-- What every migration starts with. -/
def baseStatements : List Statement :=
  [.create .records, .create .checkpoint, .create .owned] ++ baseIndexes.map .createBaseIndex ++
    [.create .view, .deleteAllOwned]

/-- `_existing_index_shape`. -/
def existingIndexShape (name : String) : Action (Option (List String × Bool)) := do
  let rows ← execute .indexList
  match (rows : List IndexEntry).find? fun row ↦ row.name = name with
  | none => return none
  | some entry => do
    let xinfo ← execute (.indexXinfo name)
    let sorted := (xinfo : List IndexColumn).insertionSort fun first second ↦
      first.seqno ≤ second.seqno
    return some (sorted.filterMap fun row ↦ if row.key then row.name else none, entry.unique)

/-- The loop over the declared columns. -/
def reconcileColumns (platform : Platform) (existing : List String) (schema : String) :
    List GeneratedColumn → Action Unit
  | [] => return
  | column :: rest => do
    if column.name ∈ existing then
      .ofExcept ((checkColumnDrift platform.isAlnum column schema).mapError .config)
    else executeMigrationDdl (.addColumn column) (emitAddColumn column)
    reconcileColumns platform existing schema rest

/-- One round of the loop over the declared indexes. -/
def reconcileIndex (index : Index) : Action Unit := do
  match ← existingIndexShape index.name with
  | none => executeMigrationDdl (.createIndex index) (emitCreateIndex index)
  | some (columns, unique) =>
    if (columns, unique) ≠ (index.columns, index.unique) then
      .raise (.config (.indexDrift index columns unique))

/-- The loop over the declared indexes. -/
def reconcileIndexes : List Index → Action Unit
  | [] => return
  | index :: rest => do
    reconcileIndex index
    reconcileIndexes rest

/-- `migrate`. -/
def migrate (platform : Platform) (columns : List GeneratedColumn) (indexes : List Index) :
    Action Unit := do
  executeAll baseStatements
  let existing ← execute .tableXinfo
  match ← execute .selectSchema with
  | none => .raise .assertionFailed
  | some schema => do
    reconcileColumns platform existing schema columns
    let _ ← execute .indexList
    reconcileIndexes indexes

/-! ### Runs -/

/-- SQLite under others that write rows. -/
def environment (platform : Platform) (writes : Database → Database → Prop) :
    Environment interface Storage where
  interferes _ storage next :=
    next.catalog = storage.catalog ∧
      Relation.ReflTransGen writes storage.database next.database
  answers storage statement reply next := answer platform storage statement = (reply, next)
  interferes_refl _ _ := ⟨rfl, .refl⟩
  interferes_trans hfirst hsecond :=
    ⟨hsecond.1.trans hfirst.1, hfirst.2.trans hsecond.2⟩

/-- A run that is over: its outcome, the statements it ran, and what it left. -/
structure Finished (Value : Type) where
  outcome : Outcome MigrationError Value
  statements : List Statement
  final : Storage

/-- The run of a program that nobody interrupts or disturbs. -/
def run {Value : Type} (platform : Platform) : Action Value → Storage → Finished Value
  | .finish value, storage => ⟨.returned value, [], storage⟩
  | .raise error, storage => ⟨.raised error, [], storage⟩
  | .exhausted, storage => ⟨.exhausted, [], storage⟩
  | .await statement resume, storage =>
    let (reply, next) := answer platform storage statement
    let finished := run platform (resume reply) next
    { finished with statements := statement :: finished.statements }

section Rules

variable {Value : Type} {platform : Platform} {writes : Database → Database → Prop}
  {moment : Statement → Storage → Prop} {storage : Storage} {inv : Database → Prop}

/-- What holds of every run of a program holds of the undisturbed one. -/
theorem run_of_holds {post : Outcome MigrationError Value → Storage → Prop} {program : Action Value}
    (hprogram : Holds (environment platform writes) moment post program storage) :
    post (run platform program storage).outcome (run platform program storage).final ∧
      ∀ statement ∈ (run platform program storage).statements, ∃ before,
        moment statement before := by
  induction program generalizing storage with
  | finish value => exact ⟨hprogram, by simp [run]⟩
  | raise error => exact ⟨hprogram, by simp [run]⟩
  | exhausted => exact ⟨hprogram, by simp [run]⟩
  | await statement resume ih =>
    obtain ⟨hmoment, hresume⟩ := hprogram storage ⟨rfl, .refl⟩
    obtain ⟨hpost, hstatements⟩ := ih _ (hresume _ _ rfl)
    exact ⟨hpost, List.forall_mem_cons.mpr ⟨⟨storage, hmoment⟩, hstatements⟩⟩

/-- The undisturbed run is one of the runs. -/
theorem steps_run (program : Action Value) (storage : Storage) :
    ∃ trace, Steps (environment platform writes) program storage trace
      (run platform program storage).outcome.program (run platform program storage).final := by
  induction program generalizing storage with
  | finish value => exact ⟨[], .refl⟩
  | raise error => exact ⟨[], .refl⟩
  | exhausted => exact ⟨[], .refl⟩
  | await statement resume ih =>
    obtain ⟨trace, hsteps⟩ := ih (answer platform storage statement).1
      (answer platform storage statement).2
    exact ⟨_, .answer rfl hsteps⟩

/-- A statement in a database file where others keep an invariant of the rows: it is answered over
the same catalog and over some rows of the invariant. -/
theorem holds_execute (hwrites : ∀ before after, writes before after → inv before → inv after)
    {statement : Statement} {post : Outcome MigrationError statement.Result → Storage → Prop}
    (hinv : inv storage.database)
    (hmoment : ∀ database, inv database → moment statement ⟨storage.catalog, database⟩)
    (hpost : ∀ database, inv database → ∀ reply next,
      answer platform ⟨storage.catalog, database⟩ statement = (reply, next) →
        match reply with
        | .ok result => post (.returned result) next
        | .error message => post (.raised (.sqlite message)) next) :
    Holds (environment platform writes) moment post (execute statement) storage := by
  rintro ⟨catalog, database⟩ ⟨hcatalog, hbetween⟩
  obtain rfl : catalog = storage.catalog := hcatalog
  have hkept : inv database := by
    change Relation.ReflTransGen writes storage.database database at hbetween
    induction hbetween with
    | refl => exact hinv
    | tail _ hwrite ih => exact hwrites _ _ hwrite ih
  refine ⟨hmoment database hkept, fun reply next hreply ↦ ?_⟩
  have hnext := hpost database hkept reply next hreply
  cases reply with
  | ok result => exact hnext
  | error message => exact hnext

end Rules

end KSQLite.Schema
