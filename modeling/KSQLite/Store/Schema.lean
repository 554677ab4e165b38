import KSQLite.Log.FirstWins
import KSQLite.Store.State
import Mathlib.Data.Finset.Basic

/-!
# The database and its statements

`Database` is the committed content of a store's database: the rows of `_records`, whose message
ids are distinct, the checkpoint of each partition, and the partitions in `_owned`. The statements
are the ones append and replay share: the insertion that skips a known message id, the checkpoint
upsert that never lowers, the clamp that may, and the three `_owned` statements. The `records`
view joins the rows with `_owned`.
-/

set_option autoImplicit false
set_option relaxedAutoImplicit false

namespace KSQLite.Store

open KSQLite.Log

/-- One row of `_records`. -/
structure Row where
  messageId : String
  source : TopicPartition
  changelogOffset : ℤ
  entityKey : String
  payload : String
  deriving DecidableEq

/-- The content of a database. -/
structure Database where
  records : List Row
  unique : (records.map Row.messageId).Nodup
  checkpoint : TopicPartition → Option ℤ
  owned : Finset TopicPartition

namespace Database

/-- A database that was just created. -/
def empty : Database where
  records := []
  unique := List.nodup_nil
  checkpoint := fun _ ↦ none
  owned := ∅

/-- Insert a row whose payload SQLite has normalized, unless its message id is known. -/
def insertRow (database : Database) (row : Row) : Database where
  records := insertNew Row.messageId database.records row
  unique := nodup_keys_insertNew database.unique row
  checkpoint := database.checkpoint
  owned := database.owned

/-- Insert rows one after another. -/
def insertRows (database : Database) (rows : List Row) : Database :=
  rows.foldl insertRow database

/-- `INSERT_RECORD_SQL`: SQLite evaluates `json(:payload)` before it looks for a conflict. -/
def insertRecord (json : String → Option String) (row : Row) (database : Database) :
    Except Error Database :=
  match json row.payload with
  | none => .error (.sqlite "malformed JSON")
  | some payload => .ok (database.insertRow { row with payload := payload })

/-- Store a checkpoint in place of the old one. -/
def setCheckpoint (database : Database) (tp : TopicPartition) (offset : ℤ) : Database :=
  { database with checkpoint := Function.update database.checkpoint tp (some offset) }

/-- `CHECKPOINT_UPSERT_SQL`. -/
def upsertCheckpoint (database : Database) (tp : TopicPartition) (offset : ℤ) : Database :=
  database.setCheckpoint tp (PartitionStateMachine.maxOffset (database.checkpoint tp) offset)

/-- `CHECKPOINT_CLAMP_SQL`. -/
def clampCheckpoint (database : Database) (tp : TopicPartition) (offset : ℤ) : Database :=
  database.setCheckpoint tp offset

/-- `OWNED_INSERT_SQL`. -/
def insertOwned (database : Database) (tp : TopicPartition) : Database :=
  { database with owned := insert tp database.owned }

/-- `OWNED_DELETE_SQL`. -/
def deleteOwned (database : Database) (tp : TopicPartition) : Database :=
  { database with owned := database.owned.erase tp }

/-- `OWNED_DELETE_ALL_SQL`. -/
def deleteAllOwned (database : Database) : Database :=
  { database with owned := ∅ }

/-- The append-path pair: the insertion and the checkpoint upsert. -/
def applyMaterialization (json : String → Option String) (row : Row) (database : Database) :
    Except Error Database := do
  let inserted ← database.insertRecord json row
  return inserted.upsertCheckpoint row.source row.changelogOffset

/-- The `records` view: the rows of owned partitions. -/
def view (database : Database) : List Row :=
  database.records.filter fun row ↦ row.source ∈ database.owned

/-- The rows of one partition. -/
def rowsOf (database : Database) (tp : TopicPartition) : List Row :=
  database.records.filter fun row ↦ row.source = tp

variable {database : Database} {tp other : TopicPartition} {row : Row} {offset : ℤ}

theorem mem_rowsOf : row ∈ database.rowsOf tp ↔ row ∈ database.records ∧ row.source = tp := by
  simp [rowsOf]

/-- A message id determines its row. -/
theorem eq_of_messageId_eq {first second : Row} (hfirst : first ∈ database.records)
    (hsecond : second ∈ database.records) (hid : first.messageId = second.messageId) :
    first = second :=
  eq_of_key_eq database.unique hfirst hsecond hid

/-! ### What each statement leaves alone -/

@[simp] theorem setCheckpoint_records : (database.setCheckpoint tp offset).records =
    database.records := rfl

@[simp] theorem setCheckpoint_owned : (database.setCheckpoint tp offset).owned =
    database.owned := rfl

@[simp] theorem setCheckpoint_checkpoint_self :
    (database.setCheckpoint tp offset).checkpoint tp = some offset := by
  simp [setCheckpoint]

/-- After a clamp to the offset before a log end, the next offset to replay is that log end. -/
theorem nextOffset_clampCheckpoint (leo : ℤ) :
    PartitionStateMachine.nextOffset
      ((database.clampCheckpoint tp (leo - 1)).checkpoint tp) = leo := by
  simp [clampCheckpoint, PartitionStateMachine.nextOffset]

theorem setCheckpoint_checkpoint_of_ne (hother : other ≠ tp) :
    (database.setCheckpoint tp offset).checkpoint other = database.checkpoint other := by
  simp [setCheckpoint, hother]

@[simp] theorem insertOwned_records : (database.insertOwned tp).records = database.records := rfl

@[simp] theorem insertOwned_checkpoint :
    (database.insertOwned tp).checkpoint = database.checkpoint := rfl

@[simp] theorem mem_insertOwned :
    other ∈ (database.insertOwned tp).owned ↔ other = tp ∨ other ∈ database.owned := by
  simp [insertOwned]

@[simp] theorem deleteOwned_records : (database.deleteOwned tp).records = database.records := rfl

@[simp] theorem deleteOwned_checkpoint :
    (database.deleteOwned tp).checkpoint = database.checkpoint := rfl

@[simp] theorem mem_deleteOwned :
    other ∈ (database.deleteOwned tp).owned ↔ other ≠ tp ∧ other ∈ database.owned := by
  simp [deleteOwned]

@[simp] theorem insertRow_records :
    (database.insertRow row).records = insertNew Row.messageId database.records row := rfl

@[simp] theorem insertRow_checkpoint : (database.insertRow row).checkpoint =
    database.checkpoint := rfl

@[simp] theorem insertRow_owned : (database.insertRow row).owned = database.owned := rfl

@[simp] theorem insertRows_records (database : Database) (rows : List Row) :
    (database.insertRows rows).records = insertAll Row.messageId database.records rows := by
  induction rows generalizing database with
  | nil => rfl
  | cons row rest ih => exact ih (database.insertRow row)

@[simp] theorem insertRows_checkpoint (database : Database) (rows : List Row) :
    (database.insertRows rows).checkpoint = database.checkpoint := by
  induction rows generalizing database with
  | nil => rfl
  | cons row rest ih => exact ih (database.insertRow row)

@[simp] theorem insertRows_owned (database : Database) (rows : List Row) :
    (database.insertRows rows).owned = database.owned := by
  induction rows generalizing database with
  | nil => rfl
  | cons row rest ih => exact ih (database.insertRow row)

/-- The insertion succeeds exactly when SQLite accepts the payload as JSON. -/
theorem insertRecord_eq_ok {json : String → Option String} {inserted : Database} :
    database.insertRecord json row = .ok inserted ↔
      ∃ payload, json row.payload = some payload ∧
        inserted = database.insertRow { row with payload := payload } := by
  unfold insertRecord
  cases json row.payload with
  | none => simp
  | some payload => simp [eq_comm]

/-- The append-path pair succeeds exactly when SQLite accepts the payload as JSON. -/
theorem applyMaterialization_eq_ok {json : String → Option String} {applied : Database} :
    database.applyMaterialization json row = .ok applied ↔
      ∃ payload, json row.payload = some payload ∧
        applied = (database.insertRow { row with payload := payload }).upsertCheckpoint
          row.source row.changelogOffset := by
  unfold applyMaterialization insertRecord
  cases json row.payload with
  | none => simp [bind, Except.bind]
  | some payload => simp [bind, Except.bind, pure, Except.pure, eq_comm]

end Database

end KSQLite.Store
