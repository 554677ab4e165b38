import KSQLite.Store.World

/-!
# A sample store

Settings, a partition and three records for the instances of general results.
-/

set_option autoImplicit false
set_option relaxedAutoImplicit false

namespace KSQLite.Store.Sample

open KSQLite.Log

/-- Settings whose `json()` accepts any text as it is. -/
def settings : Settings where
  json := some
  loads := fun _ ↦ .ok ()
  template := fun tp ↦ tp.topic ++ ".changelog"
  retention := none
  verifyChangelogPolicy := false
  batchSize := 2
  rehydrateTimeout := 30
  dbPath := "orders.db"

/-- A source partition. -/
def orders : TopicPartition := ⟨"orders", 0⟩

/-- The changelog of the partition. -/
def changelog : String := "orders.changelog"

def first : KsqliteRecord := ⟨"01890a5d-ac96-774b-bcce-b302099a8051", "k1", "[]"⟩

def second : KsqliteRecord := ⟨"01890a5d-ac96-774b-bcce-b302099a8052", "k2", "[]"⟩

def third : KsqliteRecord := ⟨"01890a5d-ac96-774b-bcce-b302099a8053", "k1", "[]"⟩

/-- A log that holds the records from offset zero on. -/
def log (records : List KsqliteRecord) : OffsetLog Message :=
  OffsetLog.empty.extend (records.map KsqliteRecord.message)

/-- A broker whose changelog is a given log. -/
def broker (log : OffsetLog Message) (idlePolls : Option ℕ) : Broker where
  changelogs := Function.update (fun _ ↦ .empty) changelog log
  topics := {changelog}
  idlePolls := idlePolls

/-- A store in its first run. -/
def world (database : Database) (broker : Broker) : World where
  database := database
  memory := { Memory.new with runState := .running }
  broker := broker
  minted := ([first, second, third].map KsqliteRecord.messageId).toFinset

/-- A store that was just constructed, over an empty database. -/
def fresh (broker : Broker) : World := { world .empty broker with memory := .new }

@[simp] theorem broker_changelogs (log : OffsetLog Message) (idlePolls : Option ℕ) :
    (broker log idlePolls).changelogs changelog = log := by
  simp [broker]

theorem isUUID_messageId {record : KsqliteRecord} (hrecord : record ∈ [first, second, third]) :
    isUUID record.messageId = true := by
  revert record
  decide +kernel

/-- A log of samples holds only records that replay can materialize. -/
theorem replayable_log {records : List KsqliteRecord}
    (hrecords : ∀ record ∈ records, record ∈ [first, second, third]) :
    ∀ entry ∈ (log records).entries, Replayable settings.json entry.2 := by
  intro entry hentry
  rcases OffsetLog.mem_extend hentry with hold | ⟨hnew, _⟩
  · exact absurd hold List.not_mem_nil
  · obtain ⟨record, hrecord, hmessage⟩ := List.mem_map.mp hnew
    have hclassify := classify_message (isUUID_messageId (hrecords record hrecord))
    exact Or.inr ⟨record, hmessage ▸ hclassify, rfl⟩

theorem ksqliteOf_message {record : KsqliteRecord} (hrecord : record ∈ [first, second, third]) :
    ksqliteOf record.message = some record :=
  ksqliteOf_eq_some.mpr (classify_message (isUUID_messageId hrecord))

/-- The row of the first record, at offset zero. -/
def firstRow : Row := ⟨first.messageId, orders, 0, first.entityKey, first.payload⟩

/-- A database that applied the first record. -/
def firstApplied : Database where
  records := [firstRow]
  unique := List.nodup_singleton _
  checkpoint := Function.update (fun _ ↦ none) orders (some 0)
  owned := ∅

/-- A store that applied the first of two records. -/
def halfApplied : World := world firstApplied (broker (log [first, second]) none)

/-- Retention may trim the changelog at any time, and any call may fail. -/
def trimming : Conditions where
  disturbs := fun before after ↦ ∃ bound, after =
    { before with
      changelogs :=
        Function.update before.changelogs changelog ((before.changelogs changelog).trim bound) }
  fails := fun _ _ ↦ True
  serves := fun _ _ ↦ True
  shows := fun _ ↦ True

/-- Nobody else acts and nothing fails, but any time may pass. -/
def calm : Conditions where
  disturbs := fun _ _ ↦ False
  fails := fun _ _ ↦ False
  serves := fun _ _ ↦ True
  shows := fun _ ↦ True

/-- Nobody else acts, but any call may fail. -/
def failing : Conditions := { calm with fails := fun _ _ ↦ True }

/-- Only the first record lies below the checkpoint of the half-applied store, and it has a
row. -/
theorem halfApplied_present : ∀ entry ∈ (halfApplied.broker.changelogs changelog).entries,
    entry.1 < PartitionStateMachine.nextOffset (halfApplied.database.checkpoint orders) →
    ∀ record, ksqliteOf entry.2 = some record →
      record.messageId ∈ halfApplied.database.records.map Row.messageId := by
  intro entry hentry hlt record hrecord
  have hentries : (halfApplied.broker.changelogs changelog).entries =
      [(0, first.message), (1, second.message)] := by
    simp only [halfApplied, world, broker_changelogs]
    rfl
  have hnext : PartitionStateMachine.nextOffset (halfApplied.database.checkpoint orders) = 1 := by
    simp [halfApplied, world, firstApplied, PartitionStateMachine.nextOffset]
  rw [hentries] at hentry
  rw [hnext] at hlt
  rcases List.mem_pair.mp hentry with rfl | rfl
  · rw [ksqliteOf_message (by simp)] at hrecord
    cases hrecord
    exact List.mem_singleton.mpr rfl
  · simp at hlt

end KSQLite.Store.Sample
