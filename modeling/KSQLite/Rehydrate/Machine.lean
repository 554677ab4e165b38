import KSQLite.Store.Effects

/-!
# The rehydrate machine

The assignment of one partition as a transition system. A state is a `Point` of the code, with the
local variables that are live there, and the world; `Step` lists everything that can happen next.
Safety properties of a rehydrate are invariants of this machine: one lemma for each of its steps,
and `Reaches` carries them to every state. That the code runs inside the machine is proved in
`KSQLite.Rehydrate.Refinement`.
-/

set_option autoImplicit false
set_option relaxedAutoImplicit false

namespace KSQLite.Rehydrate

open KSQLite.Log KSQLite.Store

/-- Where the assignment of a partition is. -/
inductive Point
  | checking
  | entered
  | seeded (checkpoint : Option ℤ)
  | connected (checkpoint : Option ℤ)
  | opened (checkpoint : Option ℤ) (leo : ℤ)
  | polling (leo : ℤ) (fuel : ℕ) (replay : Replay)
  | resetting (leo : ℤ) (fuel : ℕ) (replay : Replay)
  | seeking (leo : ℤ) (fuel : ℕ) (replay : Replay)
  | materializing (leo : ℤ) (fuel : ℕ) (replay : Replay) (records : List (ℤ × Message))
      (last : ℤ × Message)
  | deciding (leo : ℤ) (fuel : ℕ) (replay : Replay)
  | clamping (leo : ℤ) (replay : Replay)
  | clampingTo (leo target : ℤ)
  | revealing (status : PartitionStatus)
  | revealed (status : PartitionStatus)
  | unreached
  | captured

/-- The calls pending at a point. -/
inductive Awaits (settings : Settings) (tp : TopicPartition) (name : String) :
    Point → Call → Prop
  | listTopics : Awaits settings tp name .checking .listTopics
  | createTopic {retention} : Awaits settings tp name .checking (.createTopic name retention)
  | describeConfigs : Awaits settings tp name .checking (.describeConfigs name)
  | readCheckpoint : Awaits settings tp name .entered (.selectCheckpoint tp)
  | startConsumer {checkpoint} : Awaits settings tp name (.seeded checkpoint) .startConsumer
  | stopConsumer {checkpoint} : Awaits settings tp name (.seeded checkpoint) .stopConsumer
  | capture {checkpoint} : Awaits settings tp name (.connected checkpoint) (.endOffset name)
  | seekToBeginning {leo} : Awaits settings tp name (.opened none leo) (.seekToBeginning name)
  | poll {leo fuel replay} : replay.position ≠ leo →
      Awaits settings tp name (.polling leo (fuel + 1) replay) (.getmany name settings.batchSize)
  | readStart {leo fuel replay} :
      Awaits settings tp name (.resetting leo fuel replay) (.beginningOffset name)
  | reset {leo fuel replay} :
      Awaits settings tp name (.seeking leo fuel replay) (.seekToBeginning name)
  | materialize {leo fuel replay records last} :
      Awaits settings tp name (.materializing leo fuel replay records last)
        (.transaction (.materializeBatch tp records last.1))
  | readStored {leo replay} : Awaits settings tp name (.clamping leo replay) (.selectCheckpoint tp)
  | clamp {leo target} : Awaits settings tp name (.clampingTo leo target)
      (.transaction (.checkpointClamp tp target))
  | reveal {status} : Awaits settings tp name (.revealing status) (.transaction (.ownedInsert tp))
  | startUnreached : Awaits settings tp name .unreached .startConsumer
  | stopUnreached : Awaits settings tp name .unreached .stopConsumer
  | captureUnreached : Awaits settings tp name .unreached (.endOffset name)
  | readUnreached : Awaits settings tp name .captured (.selectCheckpoint tp)

/-- What the assignment of a partition depends on. -/
structure Job where
  settings : Settings
  conditions : Conditions
  tp : TopicPartition
  name : String
  deadline : ℤ
  fuel : ℕ

/-- The changelog of a job. -/
def Job.log (job : Job) (world : World) : OffsetLog Message := world.broker.changelogs job.name

/-- The clock may show that the deadline passed. -/
def Job.Expires (job : Job) : Prop :=
  ∃ reading, job.conditions.shows reading ∧ job.deadline ≤ reading

/-- What can happen next in the assignment of a partition. -/
inductive Step (job : Job) : Point × World → Point × World → Prop
  /-- Others act on the broker while a call is pending. -/
  | drift {point call world broker} : Awaits job.settings job.tp job.name point call →
      job.conditions.disturbs world.broker broker →
      Step job (point, world) (point, world.drift broker)
  | createTopic {world} : Step job (.checking, world) (.checking, world.createTopic job.name)
  | check {world} : Step job (.checking, world) (.checking, world.check job.tp)
  | enter {world} : Step job (.checking, world) (.entered, world)
  | skip {world} : job.Expires → Step job (.checking, world) (.unreached, world)
  | seed {world} : Step job (.entered, world)
      (.seeded (world.database.checkpoint job.tp),
        world.seed job.tp (world.database.checkpoint job.tp))
  | keepConsumer {checkpoint world} :
      Step job (.seeded checkpoint, world) (.seeded checkpoint, world.keepConsumer)
  | connect {checkpoint world} : world.memory.consumer.isSome →
      Step job (.seeded checkpoint, world) (.connected checkpoint, world)
  | capture {checkpoint world leo} : leo = (world.broker.changelogs job.name).stop →
      Step job (.connected checkpoint, world)
        (.opened checkpoint leo, world.capture job.tp job.name leo)
  | openCold {leo world} : Step job (.opened none leo, world)
      (.polling leo job.fuel (.start none 0),
        world.seek (world.broker.changelogs job.name).start)
  | openWarm {checkpoint leo world} : 0 ≤ checkpoint + 1 →
      Step job (.opened (some checkpoint) leo, world)
        (.polling leo job.fuel (.start (some checkpoint) (checkpoint + 1)),
          world.seek (checkpoint + 1))
  | idle {leo fuel replay world next} : replay.position ≠ leo →
      FetchesNothing world job.name next →
      Step job (.polling leo (fuel + 1) replay, world) (.deciding leo fuel replay, next)
  | lose {leo fuel replay world} : replay.position ≠ leo →
      Raises job.settings job.conditions world (.getmany job.name job.settings.batchSize)
        (.kafka .offsetOutOfRange) →
      Step job (.polling leo (fuel + 1) replay, world) (.resetting leo fuel replay, world)
  | readStart {leo fuel replay world} : Step job (.resetting leo fuel replay, world)
      (.seeking leo fuel (replay.reset (world.broker.changelogs job.name).start), world)
  | reset {leo fuel replay world} : Step job (.seeking leo fuel replay, world)
      (.deciding leo fuel replay, world.seek (world.broker.changelogs job.name).start)
  | fetch {leo fuel replay world records last next} : replay.position ≠ leo →
      job.conditions.serves world records →
      Fetches world job.name job.settings.batchSize records next → records.getLast? = some last →
      Step job (.polling leo (fuel + 1) replay, world)
        (.materializing leo fuel replay records last, next)
  | materialize {leo fuel replay records last world database} : records.getLast? = some last →
      (Work.materializeBatch job.tp records last.1).run job.settings.json world.database =
        .ok database →
      Step job (.materializing leo fuel replay records last, world)
        (.deciding leo fuel (replay.advance records.length last.1),
          (world.commit database).onState (·.recordApplied job.tp last.1))
  | goOn {leo fuel replay world} :
      Step job (.deciding leo fuel replay, world) (.polling leo fuel replay, world)
  /-- The deadline is not looked at after a batch that ends at the captured log end. -/
  | expire {leo fuel replay world} : job.Expires →
      (replay.position = leo → replay.replayedAfterReset = 0) →
      Step job (.deciding leo fuel replay, world)
        (.revealing .readyPartial, world.onState (·.markReadyPartial job.tp))
  | leave {leo fuel replay world} : replay.position = leo → replay.resetOccurred = false →
      Step job (.polling leo fuel replay, world)
        (.revealing .ready, world.onState (·.markReady job.tp))
  | leaveReset {leo fuel replay world} : replay.position = leo → replay.resetOccurred = true →
      Step job (.polling leo fuel replay, world) (.clamping leo replay, world)
  | keep {leo replay world} :
      clampTarget (world.database.checkpoint job.tp) leo replay.resetLogStart
        replay.replayedAfterReset = none →
      Step job (.clamping leo replay, world)
        (.revealing .ready, world.onState (·.markReady job.tp))
  | aim {leo replay world target} :
      clampTarget (world.database.checkpoint job.tp) leo replay.resetLogStart
        replay.replayedAfterReset = some target →
      Step job (.clamping leo replay, world) (.clampingTo leo target, world)
  | clamp {leo target world} : Step job (.clampingTo leo target, world)
      (.revealing .ready, ((world.commit (world.database.clampCheckpoint job.tp target)).onState
        (·.recordClamped job.tp target)).onState (·.markReady job.tp))
  | reveal {status world} : Step job (.revealing status, world)
      (.revealed status, world.commit (world.database.insertOwned job.tp))
  | keepUnreached {world} : Step job (.unreached, world) (.unreached, world.keepConsumer)
  | captureUnreached {world leo} : leo = (world.broker.changelogs job.name).stop →
      Step job (.unreached, world) (.captured, world.onState (·.recordLogEnd job.tp leo))
  | seedUnreached {world} : Step job (.captured, world)
      (.revealing .readyPartial, (world.seed job.tp (world.database.checkpoint job.tp)).onState
        (·.markReadyPartial job.tp))

/-- The states the machine reaches from another one. -/
def Reaches (job : Job) : Point × World → Point × World → Prop :=
  Relation.ReflTransGen (Step job)

/-- What is preserved by every step holds of every state reached. -/
theorem Reaches.invariant {job : Job} {origin state : Point × World}
    (hreaches : Reaches job origin state) (invariant : Point → World → Prop)
    (hstep : ∀ {point world next after}, Step job (point, world) (next, after) →
      invariant point world → invariant next after)
    (horigin : invariant origin.1 origin.2) : invariant state.1 state.2 := by
  induction hreaches with
  | refl => exact horigin
  | tail _ hlast ih => exact hstep hlast ih

end KSQLite.Rehydrate
