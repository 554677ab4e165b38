import KSQLite.Store.Schema
import KSQLite.Store.Wire

/-!
# The works of the write transactions

Every write of the store is one work run inside one transaction: the replay of a fetched batch,
the materialization of an append, a reveal, a hide, or a clamp. A work that raises leaves the
database as it was. `replayRecords_eq_ok` says what a batch does as a whole: it succeeds exactly
when every record is foreign or has a row, and then inserts those rows in order.
-/

set_option autoImplicit false
set_option relaxedAutoImplicit false

namespace KSQLite.Store

open KSQLite.Log

/-- One record of a batch: foreign records are skipped, an unknown version is refused. -/
def replayRecord (json : String → Option String) (tp : TopicPartition) (database : Database)
    (entry : ℤ × Message) : Except Error Database :=
  match classify entry.2 with
  | .foreign _ => .ok database
  | .unknownVersion _ version => .error (.unknownVersion entry.1 tp version)
  | .ksqlite record =>
    database.insertRecord json ⟨record.messageId, tp, entry.1, record.entityKey, record.payload⟩

/-- The records of a batch, one after another. -/
def replayRecords (json : String → Option String) (tp : TopicPartition) :
    List (ℤ × Message) → Database → Except Error Database
  | [], database => .ok database
  | entry :: rest, database =>
    match replayRecord json tp database entry with
    | .error error => .error error
    | .ok replayed => replayRecords json tp rest replayed

/-- What a write transaction does. -/
inductive Work
  | materializeBatch (tp : TopicPartition) (records : List (ℤ × Message)) (batchMaxOffset : ℤ)
  | applyMaterialization (row : Row)
  | ownedInsert (tp : TopicPartition)
  | ownedDelete (tp : TopicPartition)
  | checkpointClamp (tp : TopicPartition) (target : ℤ)
  deriving DecidableEq

/-- The database a work leaves, or the error it raises. -/
def Work.run (json : String → Option String) (database : Database) : Work → Except Error Database
  | .materializeBatch tp records batchMaxOffset =>
    (replayRecords json tp records database).map (·.upsertCheckpoint tp batchMaxOffset)
  | .applyMaterialization row => database.applyMaterialization json row
  | .ownedInsert tp => .ok (database.insertOwned tp)
  | .ownedDelete tp => .ok (database.deleteOwned tp)
  | .checkpointClamp tp target => .ok (database.clampCheckpoint tp target)

/-- The boundary mapping of the transaction runner: a SQLite error surfaces as a storage error,
any other one as it is. -/
def transactionError : Error → Error
  | .sqlite message => .transactionFailed message
  | error => error

/-- The row a changelog entry is stored as. -/
def rowOf (json : String → Option String) (tp : TopicPartition) (entry : ℤ × Message) :
    Option Row :=
  (ksqliteOf entry.2).bind fun record ↦ (json record.payload).map fun payload ↦
    ⟨record.messageId, tp, entry.1, record.entityKey, payload⟩

/-- The message id of the KSQLite record an entry carries. -/
def messageIdOf (entry : ℤ × Message) : Option String :=
  (ksqliteOf entry.2).map KsqliteRecord.messageId

/-- A record a batch gets past: a foreign one, or one with a row. -/
def Replayable (json : String → Option String) (message : Message) : Prop :=
  (∃ reason, classify message = .foreign reason) ∨
    ∃ record, classify message = .ksqlite record ∧ (json record.payload).isSome

variable {json : String → Option String} {tp : TopicPartition}

theorem rowOf_eq_some {entry : ℤ × Message} {row : Row} :
    rowOf json tp entry = some row ↔ ∃ record, ksqliteOf entry.2 = some record ∧
      ∃ payload, json record.payload = some payload ∧
        row = ⟨record.messageId, tp, entry.1, record.entityKey, payload⟩ := by
  simp only [rowOf, Option.bind_eq_some_iff, Option.map_eq_some_iff, eq_comm (b := row)]

/-- A KSQLite record that a batch gets past has a row under its message id. -/
theorem Replayable.exists_row {entry : ℤ × Message} {record : KsqliteRecord}
    (hentry : Replayable json entry.2) (hrecord : ksqliteOf entry.2 = some record) :
    ∃ row, rowOf json tp entry = some row ∧ row.messageId = record.messageId := by
  have hclassify := ksqliteOf_eq_some.mp hrecord
  rcases hentry with ⟨reason, hforeign⟩ | ⟨other, hother, hjson⟩
  · rw [hclassify] at hforeign
    cases hforeign
  · rw [hclassify] at hother
    cases hother
    obtain ⟨payload, hpayload⟩ := Option.isSome_iff_exists.mp hjson
    exact ⟨_, rowOf_eq_some.mpr ⟨record, hrecord, payload, hpayload, rfl⟩, rfl⟩

/-- One record succeeds exactly when a batch gets past it. -/
theorem replayRecord_eq_ok {entry : ℤ × Message} {database replayed : Database} :
    replayRecord json tp database entry = .ok replayed ↔
      Replayable json entry.2 ∧ replayed = database.insertRows (rowOf json tp entry).toList := by
  unfold replayRecord Replayable rowOf ksqliteOf
  cases hclassify : classify entry.2 with
  | foreign reason =>
    have hrows : database.insertRows [] = database := rfl
    simp [hrows, eq_comm (a := replayed)]
  | unknownVersion messageId version => simp
  | ksqlite record =>
    simp only [Database.insertRecord_eq_ok]
    cases hjson : json record.payload with
    | none => simp [hjson]
    | some payload => simp [hjson, Database.insertRows]

/-- A batch succeeds exactly when every record of it can be got past, and then inserts their rows
in order. -/
theorem replayRecords_eq_ok {records : List (ℤ × Message)} {database replayed : Database} :
    replayRecords json tp records database = .ok replayed ↔
      (∀ entry ∈ records, Replayable json entry.2) ∧
        replayed = database.insertRows (records.filterMap (rowOf json tp)) := by
  induction records generalizing database with
  | nil => simp [replayRecords, Database.insertRows, eq_comm]
  | cons entry rest ih =>
    unfold replayRecords
    cases hentry : replayRecord json tp database entry with
    | error error =>
      have hnot : ¬ Replayable json entry.2 := fun hreplayable ↦ by
        rw [replayRecord_eq_ok.mpr ⟨hreplayable, rfl⟩] at hentry
        cases hentry
      simp [hnot]
    | ok next =>
      obtain ⟨hreplayable, rfl⟩ := replayRecord_eq_ok.mp hentry
      have hrows : (database.insertRows (rowOf json tp entry).toList).insertRows
          (rest.filterMap (rowOf json tp)) =
          database.insertRows ((entry :: rest).filterMap (rowOf json tp)) := by
        unfold Database.insertRows
        rw [← List.foldl_append, List.filterMap_cons]
        cases rowOf json tp entry <;> rfl
      simp only [ih, hrows, List.mem_cons, forall_eq_or_imp, hreplayable, true_and]

/-- A batch transaction that commits. -/
theorem run_materializeBatch_eq_ok {records : List (ℤ × Message)} {batchMaxOffset : ℤ}
    {database committed : Database} :
    (Work.materializeBatch tp records batchMaxOffset).run json database = .ok committed ↔
      (∀ entry ∈ records, Replayable json entry.2) ∧
        committed = (database.insertRows (records.filterMap (rowOf json tp))).upsertCheckpoint
          tp batchMaxOffset := by
  change (replayRecords json tp records database).map _ = _ ↔ _
  cases hreplayed : replayRecords json tp records database with
  | error error =>
    have hnot : ¬ ∀ entry ∈ records, Replayable json entry.2 := fun hall ↦ by
      rw [replayRecords_eq_ok.mpr ⟨hall, rfl⟩] at hreplayed
      cases hreplayed
    exact iff_of_false (fun hok ↦ by cases hok) fun hok ↦ hnot hok.1
  | ok replayed =>
    obtain ⟨hall, rfl⟩ := replayRecords_eq_ok.mp hreplayed
    exact ⟨fun hok ↦ ⟨hall, (Except.ok.inj hok).symm⟩, fun hok ↦ congrArg Except.ok hok.2.symm⟩

/-- A batch that committed kept the rows. -/
theorem prefix_of_run {records : List (ℤ × Message)} {offset : ℤ} {database committed : Database}
    (hrun : (Work.materializeBatch tp records offset).run json database = .ok committed) :
    database.records <+: committed.records := by
  obtain ⟨_, rfl⟩ := run_materializeBatch_eq_ok.mp hrun
  change _ <+: (Database.insertRows _ _).records
  rw [Database.insertRows_records]
  exact prefix_insertAll _ _

/-- A batch that committed leaves the checkpoint at the old one or at the end of the batch. -/
theorem checkpoint_of_run {records : List (ℤ × Message)} {offset : ℤ}
    {database committed : Database}
    (hrun : (Work.materializeBatch tp records offset).run json database = .ok committed) :
    committed.checkpoint tp =
      some (PartitionStateMachine.maxOffset (database.checkpoint tp) offset) := by
  obtain ⟨_, rfl⟩ := run_materializeBatch_eq_ok.mp hrun
  simp [Database.upsertCheckpoint]

theorem messageIdOf_eq_some {entry : ℤ × Message} {messageId : String} :
    messageIdOf entry = some messageId ↔
      ∃ record, ksqliteOf entry.2 = some record ∧ record.messageId = messageId := by
  simp [messageIdOf, Option.map_eq_some_iff]

/-- A row carries the message id of the entry it was made of. -/
theorem messageIdOf_of_rowOf {entry : ℤ × Message} {row : Row}
    (hrow : rowOf json tp entry = some row) : messageIdOf entry = some row.messageId := by
  obtain ⟨record, hrecord, payload, _, rfl⟩ := rowOf_eq_some.mp hrow
  exact messageIdOf_eq_some.mpr ⟨record, hrecord, rfl⟩

theorem source_of_rowOf {entry : ℤ × Message} {row : Row} (hrow : rowOf json tp entry = some row) :
    row.source = tp := by
  obtain ⟨record, _, payload, _, rfl⟩ := rowOf_eq_some.mp hrow
  rfl

/-- After a batch that committed, the message ids are the old ones and those of the batch. -/
theorem mem_messageIds_of_run {records : List (ℤ × Message)} {offset : ℤ}
    {database committed : Database} {messageId : String}
    (hrun : (Work.materializeBatch tp records offset).run json database = .ok committed) :
    messageId ∈ committed.records.map Row.messageId ↔
      messageId ∈ database.records.map Row.messageId ∨
        ∃ entry ∈ records, messageIdOf entry = some messageId := by
  obtain ⟨hreplayable, rfl⟩ := run_materializeBatch_eq_ok.mp hrun
  change _ ∈ (Database.insertRows _ _).records.map Row.messageId ↔ _
  rw [Database.insertRows_records, mem_keys_insertAll]
  refine or_congr_right ⟨fun hinserted ↦ ?_, fun ⟨entry, hentry, hid⟩ ↦ ?_⟩
  · obtain ⟨row, hrow, rfl⟩ := List.mem_map.mp hinserted
    obtain ⟨entry, hentry, hrowOf⟩ := List.mem_filterMap.mp hrow
    exact ⟨entry, hentry, messageIdOf_of_rowOf hrowOf⟩
  · obtain ⟨record, hrecord, rfl⟩ := messageIdOf_eq_some.mp hid
    obtain ⟨row, hrow, hrowId⟩ := (hreplayable entry hentry).exists_row hrecord
    rw [← hrowId]
    exact List.mem_map_of_mem (List.mem_filterMap.mpr ⟨entry, hentry, hrow⟩)

end KSQLite.Store
