import Mathlib.Data.Int.Notation
import Mathlib.Data.Nat.Notation
import Mathlib.Data.Rat.Defs

/-!
# Partitions, statuses and errors

The shared vocabulary of the store: source partitions, the four-valued partition status, and the
errors. Each `Error` constructor is one raise site of the code with the values its message
interpolates and its chained cause; `Error.text` is the message, and the `is…` predicates are the
classes an `except` clause or a host distinguishes.
-/

set_option autoImplicit false
set_option relaxedAutoImplicit false

namespace KSQLite.Store

/-- A Kafka partition. -/
structure TopicPartition where
  topic : String
  partition : ℤ
  deriving DecidableEq

/-- The four-valued partition state. -/
inductive PartitionStatus
  | restoring
  | ready
  | readyPartial
  | standby
  deriving DecidableEq

/-- The broker errors the code tells apart. -/
inductive KafkaError
  | offsetOutOfRange
  | failure (message : String)
  deriving DecidableEq

/-- Every error, one constructor for each raise site. -/
inductive Error
  /-- A broker client raised. -/
  | kafka (error : KafkaError)
  /-- SQLite raised inside a transaction or a read. -/
  | sqlite (message : String)
  /-- Any other exception of a dependency. -/
  | other (message : String)
  | transactionFailed (message : String)
  | databaseBusy (attempts : ℕ) (busyTimeout : ℚ)
  | poolFailure (message : String)
  | checkpointReadFailed (tp : TopicPartition) (message : String)
  | queryFailed (message : String)
  | cannotOpen (path : String) (message : String)
  | rehydrateFailed (tp : TopicPartition) (cause : Error)
  | unknownVersion (offset : ℤ) (tp : TopicPartition) (version : Option ByteArray)
  | stepZeroFailed (name : String) (cause : KafkaError)
  | topicNotFound (name : String)
  | illegalTopicName (name : String)
  | migrationFailed (message : String)
  | produceFailed (topic : String) (cause : KafkaError)
  | unusableOffset (topic : String) (offset : ℤ)
  | invalidEntityKey (shown : String)
  | unencodableEntityKey (shown : String)
  | payloadNotJson (message : String)
  | payloadNotSerializable (message : String)
  | unencodablePayload (message : String)
  | notRunning
  | startedTwice
  | producerNotStarted (cause : String)
  | adminNotStarted (cause : String)
  deriving DecidableEq

/-- The text of a broker error. -/
def KafkaError.text : KafkaError → String
  | .offsetOutOfRange => "OffsetOutOfRangeError"
  | .failure message => message

/-- The text of a partition in a message. -/
def TopicPartition.text (tp : TopicPartition) : String :=
  s!"TopicPartition(topic='{tp.topic}', partition={tp.partition})"

/-- The version header of a rejected record, as the message shows it. -/
def versionText : Option ByteArray → String
  | none => "None"
  | some version => (String.fromUTF8? version).elim "<undecodable>" fun text ↦ s!"'{text}'"

/-- The message of an error. -/
def Error.text : Error → String
  | .kafka error => error.text
  | .sqlite message => message
  | .other message => message
  | .transactionFailed message => s!"transaction failed: {message}"
  | .databaseBusy attempts busyTimeout =>
    s!"database busy after {attempts} attempts (busy_timeout={busyTimeout}s)"
  | .poolFailure message => s!"connection pool failure: {message}"
  | .checkpointReadFailed tp message => s!"checkpoint read for {tp.text} failed: {message}"
  | .queryFailed message => s!"query failed: {message}"
  | .cannotOpen path message => s!"cannot open {path}: {message}"
  | .rehydrateFailed tp cause => s!"rehydrate of {tp.text} failed: {cause.text}"
  | .unknownVersion offset tp version =>
    s!"changelog record at offset {offset} of {tp.text} carries format_version=" ++
      versionText version ++ " (reader understands '1')"
  | .stepZeroFailed name cause => s!"step 0 failed for '{name}': {cause.text}"
  | .topicNotFound name =>
    s!"changelog topic '{name}' does not exist and create_topics_retention_ms is None"
  | .illegalTopicName name => s!"illegal Kafka topic name: '{name}'"
  | .migrationFailed message => s!"migration DDL failed: {message}"
  | .produceFailed topic cause => s!"changelog produce to '{topic}' failed: {cause.text}"
  | .unusableOffset topic offset =>
    s!"produce to '{topic}' acked without a usable offset ({offset})"
  | .invalidEntityKey shown => s!"entity_key must be a non-empty str, got {shown}"
  | .unencodableEntityKey shown => s!"entity_key is not UTF-8-encodable: {shown}"
  | .payloadNotJson message => s!"payload string is not valid JSON: {message}"
  | .payloadNotSerializable message => s!"payload is not JSON-serializable: {message}"
  | .unencodablePayload message => message
  | .notRunning => "KSQLite is not running: call start() first, and not after stop()"
  | .startedTwice => "start() called twice (or after stop())"
  | .producerNotStarted cause => s!"producer failed to start: {cause}"
  | .adminNotStarted cause => s!"admin client failed to start: {cause}"

/-- `KafkaError` and its subclasses. -/
def Error.isKafkaError : Error → Bool
  | .kafka _ => true
  | _ => false

/-- The errors raised as `StorageError`. -/
def Error.isStorageError : Error → Bool
  | .transactionFailed _ | .databaseBusy _ _ | .poolFailure _ | .checkpointReadFailed _ _
  | .queryFailed _ | .cannotOpen _ _ => true
  | _ => false

/-- The errors raised as `RehydrateError`. -/
def Error.isRehydrateError : Error → Bool
  | .rehydrateFailed _ _ | .unknownVersion _ _ _ | .stepZeroFailed _ _ => true
  | _ => false

/-- The errors raised as `ChangelogProduceError`. -/
def Error.isChangelogProduceError : Error → Bool
  | .produceFailed _ _ | .unusableOffset _ _ => true
  | _ => false

end KSQLite.Store
