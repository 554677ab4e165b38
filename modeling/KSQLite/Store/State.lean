import KSQLite.Store.Types
import Mathlib.Logic.Function.Basic
import Mathlib.Algebra.Order.Group.Int

/-!
# The in-memory partition state machine

`PartitionStateMachine` keeps one `Entry` for each partition encountered: its status, the
checkpoint as last written back, and the log end offset of the last rehydrate. The four `mark…`
updates set the status, `recordApplied` raises the checkpoint, `recordClamped` replaces it, and
`lag` pairs the live checkpoint with the cached log end. Every update of one partition leaves the
entries of the others alone (`entries_update_of_ne`).
-/

set_option autoImplicit false
set_option relaxedAutoImplicit false

namespace KSQLite.Store

/-- What is remembered of one partition. -/
structure Entry where
  status : PartitionStatus
  checkpointOffset : Option ℤ := none
  logEndOffset : Option ℤ := none

/-- Every partition encountered during the lifetime of a process. -/
structure PartitionStateMachine where
  entries : TopicPartition → Option Entry

namespace PartitionStateMachine

/-- No partition was encountered. -/
def new : PartitionStateMachine := ⟨fun _ ↦ none⟩

/-- The entry of a partition, in standby if there is none. -/
def entry (machine : PartitionStateMachine) (tp : TopicPartition) : Entry :=
  (machine.entries tp).getD { status := .standby }

/-- Change the entry of one partition, creating it if there is none. -/
def update (machine : PartitionStateMachine) (tp : TopicPartition) (change : Entry → Entry) :
    PartitionStateMachine :=
  ⟨Function.update machine.entries tp (some (change (machine.entry tp)))⟩

/-- Set the status of a partition. -/
def mark (machine : PartitionStateMachine) (tp : TopicPartition) (status : PartitionStatus) :
    PartitionStateMachine :=
  machine.update tp fun entry ↦ { entry with status := status }

def markRestoring (machine : PartitionStateMachine) (tp : TopicPartition) :
    PartitionStateMachine := machine.mark tp .restoring

def markReady (machine : PartitionStateMachine) (tp : TopicPartition) : PartitionStateMachine :=
  machine.mark tp .ready

def markReadyPartial (machine : PartitionStateMachine) (tp : TopicPartition) :
    PartitionStateMachine := machine.mark tp .readyPartial

def markRevoked (machine : PartitionStateMachine) (tp : TopicPartition) :
    PartitionStateMachine := machine.mark tp .standby

/-- The greater of a stored offset and a new one. -/
def maxOffset : Option ℤ → ℤ → ℤ
  | none, offset => offset
  | some stored, offset => if stored < offset then offset else stored

/-- Monotonic checkpoint write-back. -/
def recordApplied (machine : PartitionStateMachine) (tp : TopicPartition) (offset : ℤ) :
    PartitionStateMachine :=
  machine.update tp fun entry ↦
    { entry with checkpointOffset := some (maxOffset entry.checkpointOffset offset) }

/-- The sole non-monotonic write-back. -/
def recordClamped (machine : PartitionStateMachine) (tp : TopicPartition) (offset : ℤ) :
    PartitionStateMachine :=
  machine.update tp fun entry ↦ { entry with checkpointOffset := some offset }

/-- Cache the log end offset observed at rehydrate. -/
def recordLogEnd (machine : PartitionStateMachine) (tp : TopicPartition) (logEndOffset : ℤ) :
    PartitionStateMachine :=
  machine.update tp fun entry ↦ { entry with logEndOffset := some logEndOffset }

/-- The live status, or none for a partition never seen. -/
def statusOf (machine : PartitionStateMachine) (tp : TopicPartition) : Option PartitionStatus :=
  (machine.entries tp).map Entry.status

/-- The live checkpoint. -/
def checkpointOf (machine : PartitionStateMachine) (tp : TopicPartition) : Option ℤ :=
  (machine.entries tp).bind Entry.checkpointOffset

/-- The cached log end offset. -/
def logEndOf (machine : PartitionStateMachine) (tp : TopicPartition) : Option ℤ :=
  (machine.entries tp).bind Entry.logEndOffset

/-- The next offset to replay for a checkpoint: the first one when there is no checkpoint. -/
def nextOffset : Option ℤ → ℤ
  | none => 0
  | some checkpoint => checkpoint + 1

/-- The log end offset less the next offset to replay, once a log end is cached. -/
def lag (machine : PartitionStateMachine) (tp : TopicPartition) : Option ℤ :=
  (machine.logEndOf tp).map fun logEnd ↦ logEnd - nextOffset (machine.checkpointOf tp)

variable {machine : PartitionStateMachine} {tp other : TopicPartition}

/-! ### Reading after an update -/

@[simp] theorem entries_update_self (change : Entry → Entry) :
    (machine.update tp change).entries tp = some (change (machine.entry tp)) := by
  simp [update]

/-- An update leaves every other partition alone. -/
theorem entries_update_of_ne (change : Entry → Entry) (hother : other ≠ tp) :
    (machine.update tp change).entries other = machine.entries other := by
  simp [update, hother]

theorem entry_checkpointOffset : (machine.entry tp).checkpointOffset = machine.checkpointOf tp := by
  unfold entry checkpointOf
  cases machine.entries tp <;> rfl

theorem entry_logEndOffset : (machine.entry tp).logEndOffset = machine.logEndOf tp := by
  unfold entry logEndOf
  cases machine.entries tp <;> rfl

theorem entry_status : (machine.entry tp).status = (machine.statusOf tp).getD .standby := by
  unfold entry statusOf
  cases machine.entries tp <;> rfl

@[simp] theorem statusOf_mark (status : PartitionStatus) :
    (machine.mark tp status).statusOf tp = some status := by
  simp [mark, statusOf]

@[simp] theorem checkpointOf_mark (status : PartitionStatus) :
    (machine.mark tp status).checkpointOf tp = machine.checkpointOf tp := by
  simp [mark, checkpointOf, entry_checkpointOffset]

@[simp] theorem logEndOf_mark (status : PartitionStatus) :
    (machine.mark tp status).logEndOf tp = machine.logEndOf tp := by
  simp [mark, logEndOf, entry_logEndOffset]

@[simp] theorem statusOf_recordApplied (offset : ℤ) :
    (machine.recordApplied tp offset).statusOf tp =
      some ((machine.statusOf tp).getD .standby) := by
  simp [recordApplied, statusOf, entry_status]

@[simp] theorem statusOf_recordClamped (offset : ℤ) :
    (machine.recordClamped tp offset).statusOf tp =
      some ((machine.statusOf tp).getD .standby) := by
  simp [recordClamped, statusOf, entry_status]

@[simp] theorem statusOf_recordLogEnd (logEndOffset : ℤ) :
    (machine.recordLogEnd tp logEndOffset).statusOf tp =
      some ((machine.statusOf tp).getD .standby) := by
  simp [recordLogEnd, statusOf, entry_status]

@[simp] theorem checkpointOf_recordApplied (offset : ℤ) :
    (machine.recordApplied tp offset).checkpointOf tp =
      some (maxOffset (machine.checkpointOf tp) offset) := by
  simp [recordApplied, checkpointOf, entry_checkpointOffset]

@[simp] theorem logEndOf_recordApplied (offset : ℤ) :
    (machine.recordApplied tp offset).logEndOf tp = machine.logEndOf tp := by
  simp [recordApplied, logEndOf, entry_logEndOffset]

@[simp] theorem checkpointOf_recordClamped (offset : ℤ) :
    (machine.recordClamped tp offset).checkpointOf tp = some offset := by
  simp [recordClamped, checkpointOf]

@[simp] theorem logEndOf_recordClamped (offset : ℤ) :
    (machine.recordClamped tp offset).logEndOf tp = machine.logEndOf tp := by
  simp [recordClamped, logEndOf, entry_logEndOffset]

@[simp] theorem checkpointOf_recordLogEnd (logEndOffset : ℤ) :
    (machine.recordLogEnd tp logEndOffset).checkpointOf tp = machine.checkpointOf tp := by
  simp [recordLogEnd, checkpointOf, entry_checkpointOffset]

@[simp] theorem logEndOf_recordLogEnd (logEndOffset : ℤ) :
    (machine.recordLogEnd tp logEndOffset).logEndOf tp = some logEndOffset := by
  simp [recordLogEnd, logEndOf]

/-! ### Monotonic write-back -/

theorem le_maxOffset (stored : Option ℤ) (offset : ℤ) : offset ≤ maxOffset stored offset := by
  cases stored with
  | none => exact le_refl offset
  | some checkpoint =>
    change offset ≤ if checkpoint < offset then offset else checkpoint
    split_ifs <;> omega

theorem maxOffset_some (stored offset : ℤ) : maxOffset (some stored) offset =
    max stored offset := by
  change (if stored < offset then offset else stored) = _
  split_ifs <;> omega

/-- The next offset to replay after a write-back is the old one or the one after the offset. -/
theorem nextOffset_maxOffset (stored : Option ℤ) (offset : ℤ) :
    nextOffset (some (maxOffset stored offset)) = nextOffset stored ∨
      nextOffset (some (maxOffset stored offset)) = offset + 1 := by
  cases stored with
  | none => exact Or.inr rfl
  | some checkpoint =>
    rw [maxOffset_some]
    rcases max_choice checkpoint offset with hmax | hmax
    · exact Or.inl (by rw [hmax])
    · exact Or.inr (by rw [hmax]; rfl)

/-- The next offset to replay after a write-back is the greater of the old one and the one after
the offset. -/
theorem nextOffset_maxOffset_eq (stored : Option ℤ) {offset : ℤ} (hoffset : 0 ≤ offset) :
    nextOffset (some (maxOffset stored offset)) = max (nextOffset stored) (offset + 1) := by
  cases stored with
  | none => exact (max_eq_right (by change (0 : ℤ) ≤ offset + 1; omega)).symm
  | some checkpoint =>
    rw [maxOffset_some]
    change max checkpoint offset + 1 = max (checkpoint + 1) (offset + 1)
    omega

/-- The next offset to replay after a write-back lies past the offset. -/
theorem lt_nextOffset_maxOffset (stored : Option ℤ) (offset : ℤ) :
    offset < nextOffset (some (maxOffset stored offset)) :=
  Int.lt_add_one_iff.mpr (le_maxOffset stored offset)

/-- Writing back the stored offset changes nothing. -/
@[simp] theorem maxOffset_self (offset : ℤ) : maxOffset (some offset) offset = offset := by
  simp [maxOffset]

/-- Every update is confined to its partition: status, checkpoint and log end of another one are
read from an entry that did not change. -/
theorem reads_eq_of_entries_eq {first second : PartitionStateMachine}
    (hentries : first.entries tp = second.entries tp) :
    first.statusOf tp = second.statusOf tp ∧ first.checkpointOf tp = second.checkpointOf tp ∧
      first.logEndOf tp = second.logEndOf tp := by
  simp [statusOf, checkpointOf, logEndOf, hentries]

end PartitionStateMachine

end KSQLite.Store
