import KSQLite.Log.OffsetLog
import KSQLite.Store.Transaction
import KSQLite.Suspension.Program
import Mathlib.Logic.Relation

/-!
# The store, the broker and the requests between them

A `World` is one store, with its database and its memory, together with the broker. The code asks
`Request`s: reading the clock, reading and changing its own memory and drawing a message id happen
at once, and a `Call` is awaited. `Conditions` says what the surroundings may do, that is how
others change the broker while a call is awaited, which calls fail with which errors, what a fetch
returns and what the clock shows; `environment` turns them into the interference and the answers of
`Suspension.Environment`. A produced record lands, any number of times, while its call is awaited;
its acknowledgement reports where it landed last.
-/

set_option autoImplicit false
set_option relaxedAutoImplicit false

namespace KSQLite.Store

open KSQLite.Log KSQLite.Suspension

/-- The parameters of a store: SQLite's `json()`, `json.loads` with the non-standard constants
rejected, what the changelog template formats to, and the configuration. -/
structure Settings where
  json : String → Option String
  loads : String → Except String Unit
  template : TopicPartition → String
  retention : Option ℤ
  verifyChangelogPolicy : Bool
  batchSize : ℕ
  rehydrateTimeout : ℤ
  dbPath : String

/-- The rehydrate consumer: the changelog it is assigned and its position there. -/
structure Consumer where
  assigned : Option String
  position : Option ℤ

namespace Consumer

/-- A consumer that was just started. -/
def started : Consumer := ⟨none, none⟩

/-- `assign` replaces the assignment and forgets the position. -/
def assign (_ : Consumer) (name : String) : Consumer := ⟨some name, none⟩

def seek (consumer : Consumer) (offset : ℤ) : Consumer := { consumer with position := some offset }

end Consumer

/-- The phase of the facade. -/
inductive RunState
  | new
  | running
  | stopping
  | closed
  deriving DecidableEq

/-- The memory of a store: the partition states, the lazily started consumer, the partitions that
passed step 0, and the phase. -/
structure Memory where
  state : PartitionStateMachine
  consumer : Option Consumer
  checked : Finset TopicPartition
  runState : RunState
  inFlight : ℕ
  drained : Bool

/-- The memory of a store that was just constructed. -/
def Memory.new : Memory where
  state := .new
  consumer := none
  checked := ∅
  runState := .new
  inFlight := 0
  drained := false

/-- The broker: the changelogs, the topics it lists, and how many more fetches may come back empty
although there is something to fetch, if there is a bound. -/
structure Broker where
  changelogs : String → OffsetLog Message
  topics : Finset String
  idlePolls : Option ℕ

/-- One store with its broker; `minted` holds the message ids drawn so far. -/
structure World where
  database : Database
  memory : Memory
  broker : Broker
  minted : Finset String

/-- The steps of a migration. -/
inductive MigrationStep
  | createSchema
  | deleteAllOwned
  | reconcile

/-- The awaited calls of the code. -/
inductive Call
  | startConsumer
  | stopConsumer
  | endOffset (name : String)
  | beginningOffset (name : String)
  | seekToBeginning (name : String)
  | getmany (name : String) (limit : ℕ)
  | sendAndWait (name : String) (message : Message)
  | listTopics
  | createTopic (name : String) (retention : ℤ)
  | describeConfigs (name : String)
  /-- One work inside one transaction of the runner. -/
  | transaction (work : Work)
  | selectCheckpoint (tp : TopicPartition)
  | migrate (step : MigrationStep)
  | startProducer
  | stopProducer
  | startAdmin
  | closeAdmin
  | closePool

/-- What a call returns. -/
abbrev Call.Result : Call → Type
  | endOffset _ | beginningOffset _ | sendAndWait _ _ => ℤ
  | getmany _ _ => List (ℤ × Message)
  | listTopics => Finset String
  | createTopic _ _ => List (ℤ × Option String)
  | selectCheckpoint _ => Option ℤ
  | _ => Unit

/-- What the code asks of its surroundings. -/
inductive Request
  /-- `time.monotonic()`. -/
  | clock
  | observe
  | remember (update : Memory → Memory)
  | newMessageId
  | call (call : Call)

/-- The type of the reply to a request. -/
abbrev Request.Reply : Request → Type
  | .clock => ℤ
  | .observe => Memory
  | .remember _ => Unit
  | .newMessageId => String
  | .call awaited => Except Error awaited.Result

/-- The requests of the store with their replies. -/
abbrev requests : Interface := ⟨Request, Request.Reply⟩

/-- A coroutine of the store. -/
abbrev Action (Value : Type) : Type := Program requests Error Value

/-- What the surroundings of a store may do. -/
structure Conditions where
  /-- One step of others on the broker while a call is awaited. -/
  disturbs : Broker → Broker → Prop
  /-- The errors a call may fail with, for no reason the model knows. -/
  fails : Call → Error → Prop
  /-- The batches a fetch may return, among those it can. -/
  serves : World → List (ℤ × Message) → Prop
  /-- What the clock may show. -/
  shows : ℤ → Prop

/-! ### The broker -/

namespace Broker

/-- A record lands at the end of a changelog. -/
def push (broker : Broker) (name : String) (message : Message) : Broker :=
  { broker with
    changelogs := Function.update broker.changelogs name ((broker.changelogs name).push message) }

/-- A fetch comes back empty although there may be something to fetch. -/
def Idles (broker next : Broker) : Prop :=
  (broker.idlePolls = none ∧ next = broker) ∨
    ∃ idlePolls, broker.idlePolls = some (idlePolls + 1) ∧
      next = { broker with idlePolls := some idlePolls }

/-- How many more polls may be idle, when there is a bound. -/
def idleCount (broker : Broker) : ℕ := broker.idlePolls.getD 0

/-- One step of the broker while a call is awaited: others act, or the awaited record lands. -/
inductive Moves (conditions : Conditions) : Request → Broker → Broker → Prop
  | disturb {call broker next} : conditions.disturbs broker next →
      Moves conditions (.call call) broker next
  | land {name message broker} :
      Moves conditions (.call (.sendAndWait name message)) broker (broker.push name message)

end Broker

/-! ### Answers -/

/-- Where the consumer fetches from, if it is assigned the changelog and has a position. -/
def Memory.fetchPosition (memory : Memory) (name : String) : Option ℤ :=
  memory.consumer.bind fun consumer ↦
    if consumer.assigned = some name then consumer.position else none

/-- Move the consumer. -/
def Memory.seek (memory : Memory) (offset : ℤ) : Memory :=
  { memory with consumer := memory.consumer.map (·.seek offset) }

@[simp] theorem Memory.seek_state (memory : Memory) (offset : ℤ) :
    (memory.seek offset).state = memory.state := rfl

/-- The consumer is assigned a changelog, whatever its position. -/
def Memory.Assigned (memory : Memory) (name : String) : Prop :=
  ∃ position, memory.consumer = some ⟨some name, position⟩

theorem Memory.fetchPosition_eq_some {memory : Memory} {name : String} {position : ℤ} :
    memory.fetchPosition name = some position ↔
      memory.consumer = some ⟨some name, some position⟩ := by
  obtain ⟨_, consumer, _⟩ := memory
  rcases consumer with _ | ⟨assigned, stored⟩
  · simp [fetchPosition]
  · by_cases hassigned : assigned = some name
    · simp [fetchPosition, hassigned]
    · simp [fetchPosition, hassigned]

/-- A consumer fetches from where it was moved to. -/
theorem Memory.fetchPosition_seek {memory : Memory} {name : String} {offset position : ℤ}
    (hposition : (memory.seek offset).fetchPosition name = some position) : position = offset := by
  have hconsumer := fetchPosition_eq_some.mp hposition
  obtain ⟨consumer, _, hmoved⟩ := Option.map_eq_some_iff.mp hconsumer
  exact (Option.some.inj (congrArg Consumer.position hmoved)).symm

/-- An assigned consumer that is moved fetches from there. -/
theorem Memory.Assigned.fetchPosition {memory : Memory} {name : String}
    (hassigned : memory.Assigned name) (offset : ℤ) :
    (memory.seek offset).fetchPosition name = some offset := by
  obtain ⟨position, hconsumer⟩ := hassigned
  refine fetchPosition_eq_some.mpr ?_
  simp [Memory.seek, hconsumer, Consumer.seek]

theorem Memory.assigned_of_fetchPosition {memory : Memory} {name : String} {position : ℤ}
    (hposition : memory.fetchPosition name = some position) : memory.Assigned name :=
  ⟨some position, fetchPosition_eq_some.mp hposition⟩

/-- A fetch returns records: an initial part of what is available from the position of the
consumer, which moves past them. -/
def Fetches (world : World) (name : String) (limit : ℕ) (batch : List (ℤ × Message))
    (next : World) : Prop :=
  ∃ position last, world.memory.fetchPosition name = some position ∧
    (world.broker.changelogs name).InRange position ∧
    (world.broker.changelogs name).IsBatch position limit batch ∧
    batch.getLast? = some last ∧
    next = { world with memory := world.memory.seek (last.1 + 1) }

/-- A fetch returns nothing: there is nothing at the position, or the poll was idle. -/
def FetchesNothing (world : World) (name : String) (next : World) : Prop :=
  (∃ position, world.memory.fetchPosition name = some position ∧
    (world.broker.changelogs name).InRange position ∧
    (world.broker.changelogs name).available position = [] ∧ next = world) ∨
  ∃ broker, world.broker.Idles broker ∧ next = { world with broker := broker }

/-- A fetch that returns nothing at most uses up an idle poll. -/
theorem FetchesNothing.exists_idlePolls {world next : World} {name : String}
    (hnothing : FetchesNothing world name next) :
    ∃ idlePolls, next = { world with broker := { world.broker with idlePolls := idlePolls } } := by
  rcases hnothing with ⟨_, _, _, _, rfl⟩ | ⟨broker, ⟨_, rfl⟩ | ⟨idlePolls, _, rfl⟩, rfl⟩
  · exact ⟨_, rfl⟩
  · exact ⟨_, rfl⟩
  · exact ⟨some idlePolls, rfl⟩

/-- The consumer stands outside its changelog. -/
def OutOfRange (world : World) (name : String) : Prop :=
  ∃ position, world.memory.fetchPosition name = some position ∧
    ¬ (world.broker.changelogs name).InRange position

/-- A record landed at an offset and at no later one. -/
def LandedLast (log : OffsetLog Message) (message : Message) (offset : ℤ) : Prop :=
  (offset, message) ∈ log.entries ∧
    ∀ entry ∈ log.entries, entry.2 = message → entry.1 ≤ offset

/-- The error code that says a topic exists. -/
def topicAlreadyExists : ℤ := 36

/-- The broker error of an error code. -/
def forCode (code : ℤ) (name : String) (message : Option String) : KafkaError :=
  .failure s!"[Error {code}] creating changelog topic '{name}' failed: {message}"

/-- The errors a call may raise. It changes nothing then. -/
def Raises (settings : Settings) (conditions : Conditions) (world : World) (call : Call)
    (error : Error) : Prop :=
  conditions.fails call error ∨
    match call with
    | .getmany name _ => error = .kafka .offsetOutOfRange ∧ OutOfRange world name
    | .transaction work =>
      ∃ raised, work.run settings.json world.database = .error raised ∧
        error = transactionError raised
    | _ => False

/-- How a call may succeed. -/
def Succeeds (settings : Settings) (conditions : Conditions) (world : World) :
    (call : Call) → call.Result → World → Prop
  | .endOffset name, offset, next => offset = (world.broker.changelogs name).stop ∧ next = world
  | .beginningOffset name, offset, next =>
    offset = (world.broker.changelogs name).start ∧ next = world
  | .seekToBeginning name, _, next =>
    next = { world with memory := world.memory.seek (world.broker.changelogs name).start }
  | .getmany name limit, batch, next =>
    (batch = [] ∧ FetchesNothing world name next) ∨
      (conditions.serves world batch ∧ Fetches world name limit batch next)
  | .sendAndWait name message, (offset : ℤ), next =>
    -- A negative acknowledgement says nothing about where the record landed.
    next = world ∧ (LandedLast (world.broker.changelogs name) message offset ∨
      offset < 0 ∧ conditions.fails (.sendAndWait name message) (.unusableOffset name offset))
  | .listTopics, topics, next => topics = world.broker.topics ∧ next = world
  | .createTopic name retention, topicErrors, next =>
    (topicErrors = [] ∧ next = { world with
      broker := { world.broker with topics := insert name world.broker.topics } }) ∨
    ∃ code message, topicErrors = [(code, message)] ∧ next = world ∧
      (code = topicAlreadyExists ∧ name ∈ world.broker.topics ∨
        code ≠ 0 ∧ conditions.fails (.createTopic name retention)
          (.kafka (forCode code name message)))
  | .selectCheckpoint tp, checkpoint, next =>
    checkpoint = world.database.checkpoint tp ∧ next = world
  | .transaction work, _, next =>
    ∃ committed, work.run settings.json world.database = .ok committed ∧
      next = { world with database := committed }
  | .migrate .deleteAllOwned, _, next =>
    next = { world with database := world.database.deleteAllOwned }
  | .migrate _, _, next => next = world
  | .startConsumer, _, next | .stopConsumer, _, next | .describeConfigs _, _, next
  | .startProducer, _, next | .stopProducer, _, next | .startAdmin, _, next
  | .closeAdmin, _, next | .closePool, _, next => next = world

/-- How a request may be answered. -/
def answers (settings : Settings) (conditions : Conditions) (world : World) :
    (request : Request) → request.Reply → World → Prop
  | .clock, reading, next => conditions.shows reading ∧ next = world
  | .observe, memory, next => memory = world.memory ∧ next = world
  | .remember update, _, next => next = { world with memory := update world.memory }
  | .newMessageId, messageId, next =>
    isUUID messageId = true ∧ messageId ∉ world.minted ∧
      next = { world with minted := insert messageId world.minted }
  | .call call, .error error, next => Raises settings conditions world call error ∧ next = world
  | .call call, .ok value, next => Succeeds settings conditions world call value next

/-- The surroundings of one store whose coroutines run one at a time: while a call is awaited only
the broker changes. -/
def environment (settings : Settings) (conditions : Conditions) :
    Environment requests World where
  interferes request world next :=
    ∃ broker, Relation.ReflTransGen (Broker.Moves conditions request) world.broker broker ∧
      next = { world with broker := broker }
  answers world request reply next := answers settings conditions world request reply next
  interferes_refl _ world := ⟨world.broker, .refl, rfl⟩
  interferes_trans := by
    rintro request first second third ⟨broker, hfirst, rfl⟩ ⟨last, hsecond, rfl⟩
    exact ⟨last, hfirst.trans hsecond, rfl⟩

end KSQLite.Store
