import KSQLite.Store.Topics

/-!
# The partition lifecycle

Both rebalance hooks. `rehydrateOne` replays the changelog of one partition from its checkpoint to
the log end captured at its start, and reveals it: `pollOnce` is one round of its loop, on the
local variables of `Replay`. `onPartitionsAssigned` goes through an assignment under one absolute
deadline, and `onPartitionsRevoked` hides partitions and keeps their data. The loop takes fuel,
one unit a round.
-/

set_option autoImplicit false
set_option relaxedAutoImplicit false

namespace KSQLite.Store

open KSQLite.Suspension

/-- The local variables of a replay. -/
structure Replay where
  position : ℤ
  recordsReplayed : ℕ
  lastApplied : Option ℤ
  resetOccurred : Bool
  resetLogStart : ℤ
  replayedAfterReset : ℕ
  deriving DecidableEq

namespace Replay

/-- The variables before the first round. -/
def start (checkpoint : Option ℤ) (position : ℤ) : Replay where
  position := position
  recordsReplayed := 0
  lastApplied := checkpoint
  resetOccurred := false
  resetLogStart := 0
  replayedAfterReset := 0

/-- After a reset to the start of the log. -/
def reset (replay : Replay) (logStart : ℤ) : Replay :=
  { replay with
    position := logStart
    resetOccurred := true
    resetLogStart := logStart
    replayedAfterReset := 0 }

/-- After a batch of `count` records that ends at an offset. -/
def advance (replay : Replay) (count : ℕ) (offset : ℤ) : Replay :=
  { replay with
    position := offset + 1
    recordsReplayed := replay.recordsReplayed + count
    lastApplied := some offset
    replayedAfterReset := replay.replayedAfterReset + count }

end Replay

/-- What a failed checkpoint read raises. -/
def checkpointReadError (tp : TopicPartition) : Error → Error
  | .sqlite message => .checkpointReadFailed tp message
  | error => error

/-- `_read_checkpoint`. -/
def readCheckpoint (tp : TopicPartition) : Action (Option ℤ) :=
  (perform (.selectCheckpoint tp)).mapError (checkpointReadError tp)

/-- `_get_consumer`: the consumer is kept only after a successful start. -/
def getConsumer : Action Unit := do
  let memory ← observe
  if memory.consumer.isNone then
    (perform .startConsumer).handle fun error ↦ do
      quietly (perform .stopConsumer)
      .raise error
    remember fun memory ↦ { memory with consumer := some .started }

/-- `consumer.assign`. -/
def assign (name : String) : Action Unit :=
  remember fun memory ↦ { memory with consumer := memory.consumer.map (·.assign name) }

/-- `consumer.seek`: a negative offset is refused. -/
def seek (offset : ℤ) : Action Unit :=
  if offset < 0 then .raise (.other "Offset must be a positive integer")
  else remember (·.seek offset)

/-- `_reveal`. -/
def reveal (tp : TopicPartition) : Action Unit := perform (.transaction (.ownedInsert tp))

/-- Seed the checkpoint in memory from the persisted one. -/
def seed (tp : TopicPartition) : Option ℤ → Action Unit
  | none => pure ()
  | some checkpoint => rememberState (·.recordApplied tp checkpoint)

/-- `_force_stop`. -/
def forceStop (tp : TopicPartition) : Action Unit := do
  rememberState (·.markReadyPartial tp)
  reveal tp

/-- `_materialize_batch`: one transaction for the batch, then the write-back. -/
def materializeBatch (tp : TopicPartition) (records : List (ℤ × Message)) (batchMaxOffset : ℤ) :
    Action Unit := do
  perform (.transaction (.materializeBatch tp records batchMaxOffset))
  rememberState (·.recordApplied tp batchMaxOffset)

/-- One of the two clamps of `_apply_post_reset_clamps`, if one is due. -/
def clampTarget (stored : Option ℤ) (leo logStart : ℤ) (replayedAfterReset : ℕ) : Option ℤ :=
  if ∃ checkpoint ∈ stored, leo - 1 < checkpoint then some (leo - 1)
  else if replayedAfterReset = 0 ∧ logStart = leo then some (logStart - 1)
  else none

/-- `_apply_post_reset_clamps`. -/
def applyPostResetClamps (tp : TopicPartition) (leo logStart : ℤ) (replayedAfterReset : ℕ) :
    Action Unit := do
  let stored ← readCheckpoint tp
  match clampTarget stored leo logStart replayedAfterReset with
  | none => pure ()
  | some target =>
    perform (.transaction (.checkpointClamp tp target))
    rememberState (·.recordClamped tp target)

/-- Force-stop at the deadline, or go on with the loop. -/
def stopOrContinue (tp : TopicPartition) (deadline : ℤ) (replay : Replay) :
    Action (Replay ⊕ Option Replay) := do
  let now ← clock
  if deadline ≤ now then
    forceStop tp
    return .inr none
  return .inl replay

/-- One round of the replay loop. It leaves the loop without a state after a force-stop. -/
def pollOnce (settings : Settings) (tp : TopicPartition) (name : String) (leo deadline : ℤ)
    (replay : Replay) : Action (Replay ⊕ Option Replay) := do
  match ← attempt (.getmany name settings.batchSize) with
  | .error error =>
    -- The log was truncated: reset to its start.
    if error = .kafka .offsetOutOfRange then
      let logStart ← perform (.beginningOffset name)
      perform (.seekToBeginning name)
      stopOrContinue tp deadline (replay.reset logStart)
    else .raise error
  | .ok records =>
    match records.getLast? with
    | none => stopOrContinue tp deadline replay
    | some last =>
      materializeBatch tp records last.1
      let replay := replay.advance records.length last.1
      if replay.position ≠ leo then stopOrContinue tp deadline replay
      else return .inl replay

/-- The loop is left at the captured log end. -/
def caughtUp (leo : ℤ) (replay : Replay) : Option (Option Replay) :=
  if replay.position = leo then some (some replay) else none

/-- Place the consumer at the checkpoint, or at the start of the log when there is none. -/
def openReplay (name : String) : Option ℤ → Action Replay
  | none => do
    perform (.seekToBeginning name)
    return .start none 0
  | some checkpoint => do
    seek (checkpoint + 1)
    return .start (some checkpoint) (checkpoint + 1)

/-- What follows a loop that was left at the captured log end. -/
def finishReplay (tp : TopicPartition) (leo : ℤ) (replay : Replay) : Action Unit := do
  if replay.resetOccurred then
    applyPostResetClamps tp leo replay.resetLogStart replay.replayedAfterReset
  rememberState (·.markReady tp)
  reveal tp

/-- What follows the loop: nothing is left to do after a force-stop. -/
def leaveLoop (tp : TopicPartition) (leo : ℤ) : Option Replay → Action Unit
  | none => pure ()
  | some replay => finishReplay tp leo replay

/-- `_rehydrate_one`. -/
def rehydrateOne (settings : Settings) (fuel : ℕ) (tp : TopicPartition) (name : String)
    (deadline : ℤ) : Action Unit := do
  let checkpoint ← readCheckpoint tp
  seed tp checkpoint
  getConsumer
  let leo ← perform (.endOffset name)
  rememberState (·.recordLogEnd tp leo)
  rememberState (·.markRestoring tp)
  assign name
  let replay ← openReplay name checkpoint
  let finished ← Program.iterate fuel (caughtUp leo) (pollOnce settings tp name leo deadline) replay
  leaveLoop tp leo finished

/-- `_reveal_partial_unreached`. -/
def revealPartialUnreached (tp : TopicPartition) (name : String) : Action Unit := do
  getConsumer
  let leo ← perform (.endOffset name)
  rememberState (·.recordLogEnd tp leo)
  let checkpoint ← readCheckpoint tp
  seed tp checkpoint
  rememberState (·.markReadyPartial tp)
  reveal tp

/-- The deadline is looked at before every partition after the first. -/
def deadlinePassed (first : Bool) (deadline : ℤ) : Action Bool :=
  if first then pure false else do
    let now ← clock
    return decide (deadline ≤ now)

/-- One partition of an assignment, and whether the next one is still the first to replay. -/
def assignOne (settings : Settings) (fuel : ℕ) (deadline : ℤ) (first : Bool)
    (tp : TopicPartition) : Action Bool := do
  let name ← ensureAndVerify settings tp
  let expired ← deadlinePassed first deadline
  if expired then
    revealPartialUnreached tp name
    return first
  else
    rehydrateOne settings fuel tp name deadline
    return false

/-- The boundary mapping of an assignment. -/
def assignmentError (tp : TopicPartition) (error : Error) : Error :=
  if error.isStorageError || error.isKafkaError then .rehydrateFailed tp error else error

/-- The partitions of an assignment, one after another. -/
def assignAll (settings : Settings) (fuel : ℕ) (deadline : ℤ) :
    Bool → List TopicPartition → Action Unit
  | _, [] => pure ()
  | first, tp :: rest => do
    let first ← (assignOne settings fuel deadline first tp).mapError (assignmentError tp)
    assignAll settings fuel deadline first rest

/-- `on_partitions_assigned`. -/
def onPartitionsAssigned (settings : Settings) (fuel : ℕ) (assigned : List TopicPartition) :
    Action Unit := do
  let now ← clock
  assignAll settings fuel (now + settings.rehydrateTimeout) true assigned

/-- One partition of a revocation: a partition never seen is left alone. -/
def revokeOne (tp : TopicPartition) : Action Unit := do
  let memory ← observe
  if memory.state.statusOf tp = none then pure () else do
    perform (.transaction (.ownedDelete tp))
    rememberState (·.markRevoked tp)

/-- `on_partitions_revoked`. -/
def onPartitionsRevoked : List TopicPartition → Action Unit
  | [] => pure ()
  | tp :: rest => do
    revokeOne tp
    onPartitionsRevoked rest

end KSQLite.Store
