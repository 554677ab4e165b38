import KSQLite.Rehydrate.Coverage

/-!
# The checkpoint passes what was replayed

As long as others only append to a changelog and trim its head, the checkpoint keeps up with the
position of the replay: the next offset to replay is at or past the position, or the position is at
the start of the log (`passing_step`). So at `READY` no retained record below the captured log end
lies at or past the next offset to replay (`Passing.lt_nextOffset`).
-/

set_option autoImplicit false
set_option relaxedAutoImplicit false

namespace KSQLite.Rehydrate

open KSQLite.Log KSQLite.Suspension KSQLite.Store

/-- The next offset to replay is at or past a bound, or nothing is retained below it. -/
def Passed (job : Job) (world : World) (bound : ℤ) : Prop :=
  bound ≤ PartitionStateMachine.nextOffset (world.database.checkpoint job.tp) ∨
    bound ≤ (job.log world).start

/-- The log end that was captured is passed. -/
def PassedLogEnd (job : Job) (world : World) : Prop :=
  ∃ leo, world.memory.state.logEndOf job.tp = some leo ∧ Passed job world leo

/-- What holds at each point. -/
def Passing (job : Job) : Point → World → Prop
  | .seeded checkpoint, world | .connected checkpoint, world =>
    checkpoint = world.database.checkpoint job.tp
  | .opened checkpoint leo, world =>
    world.memory.state.logEndOf job.tp = some leo ∧
      checkpoint = world.database.checkpoint job.tp
  | .polling leo _ replay, world | .deciding leo _ replay, world | .seeking leo _ replay, world =>
    world.memory.state.logEndOf job.tp = some leo ∧ Passed job world replay.position
  | .resetting leo _ _, world | .materializing leo _ _ _ _, world =>
    world.memory.state.logEndOf job.tp = some leo
  | .clamping leo _, world => world.memory.state.logEndOf job.tp = some leo ∧ Passed job world leo
  | .clampingTo leo target, world =>
    world.memory.state.logEndOf job.tp = some leo ∧ target = leo - 1
  | .revealing .ready, world | .revealed .ready, world => PassedLogEnd job world
  | _, _ => True

variable {job : Job} {world next : World}

theorem Passed.drift {bound : ℤ} {broker : Broker} (hevolves : EvolvesOnly job.conditions job.name)
    (hpassed : Passed job world bound) (hdisturb : job.conditions.disturbs world.broker broker) :
    Passed job (world.drift broker) bound :=
  hpassed.imp_right fun hstart ↦ hstart.trans (hevolves world.broker broker hdisturb).start_le

theorem PassedLogEnd.drift {broker : Broker} (hevolves : EvolvesOnly job.conditions job.name)
    (hpassed : PassedLogEnd job world)
    (hdisturb : job.conditions.disturbs world.broker broker) :
    PassedLogEnd job (world.drift broker) := by
  obtain ⟨leo, hleo, hbound⟩ := hpassed
  exact ⟨leo, hleo, hbound.drift hevolves hdisturb⟩

/-- While a call is pending, others keep what holds at the point. -/
theorem Passing.drift {point : Point} {broker : Broker}
    (hevolves : EvolvesOnly job.conditions job.name) (hpassing : Passing job point world)
    (hdisturb : job.conditions.disturbs world.broker broker) :
    Passing job point (world.drift broker) := by
  cases point with
  | polling leo fuel replay | deciding leo fuel replay | seeking leo fuel replay =>
    exact ⟨hpassing.1, hpassing.2.drift hevolves hdisturb⟩
  | clamping leo replay => exact ⟨hpassing.1, hpassing.2.drift hevolves hdisturb⟩
  | revealing status =>
    cases status with
    | ready => exact PassedLogEnd.drift hevolves hpassing hdisturb
    | _ => trivial
  | revealed status =>
    cases status with
    | ready => exact PassedLogEnd.drift hevolves hpassing hdisturb
    | _ => trivial
  | _ => exact hpassing

/-- A mark changes neither the captured log end nor the checkpoint. -/
theorem passedLogEnd_mark {leo : ℤ} (hleo : world.memory.state.logEndOf job.tp = some leo)
    (hpassed : Passed job world leo) (status : PartitionStatus) :
    PassedLogEnd job (world.onState (·.mark job.tp status)) :=
  ⟨leo, (PartitionStateMachine.logEndOf_mark status).trans hleo, hpassed⟩

/-- Every step of the machine keeps the checkpoint at or past the position. -/
theorem passing_step (hevolves : EvolvesOnly job.conditions job.name) {point after : Point}
    (hstep : Step job (point, world) (after, next)) (hpassing : Passing job point world) :
    Passing job after next := by
  cases hstep with
  | drift _ hdisturb => exact hpassing.drift hevolves hdisturb
  | seed => simp [Passing]
  | keepConsumer | connect _ => exact hpassing
  | capture _ => exact ⟨World.capture_logEndOf, hpassing⟩
  | openCold =>
    refine ⟨hpassing.1, Or.inl ?_⟩
    change (0 : ℤ) ≤ PartitionStateMachine.nextOffset (world.database.checkpoint job.tp)
    rw [← hpassing.2]
    exact le_refl 0
  | openWarm _ =>
    refine ⟨hpassing.1, Or.inl ?_⟩
    change _ ≤ PartitionStateMachine.nextOffset (world.database.checkpoint job.tp)
    rw [← hpassing.2]
    exact le_refl _
  | idle _ hnothing =>
    obtain ⟨idlePolls, rfl⟩ := hnothing.exists_idlePolls
    exact hpassing
  | lose _ _ => exact hpassing.1
  | readStart => exact ⟨hpassing, Or.inr (le_refl _)⟩
  | reset => exact hpassing
  | fetch _ _ hfetches _ =>
    obtain ⟨_, _, _, _, _, _, rfl⟩ := hfetches
    exact hpassing.1
  | @materialize leo fuel replay records last world database _ hrun =>
    refine ⟨(PartitionStateMachine.logEndOf_recordApplied _).trans hpassing, Or.inl ?_⟩
    change last.1 + 1 ≤ PartitionStateMachine.nextOffset (database.checkpoint job.tp)
    rw [checkpoint_of_run hrun]
    exact PartitionStateMachine.lt_nextOffset_maxOffset _ _
  | goOn => exact hpassing
  | leave hposition _ => exact passedLogEnd_mark hpassing.1 (hposition ▸ hpassing.2) .ready
  | leaveReset hposition _ => exact ⟨hpassing.1, hposition ▸ hpassing.2⟩
  | keep _ => exact passedLogEnd_mark hpassing.1 hpassing.2 .ready
  | aim htarget => exact ⟨hpassing.1, clampTarget_eq htarget⟩
  | @clamp leo target world =>
    obtain ⟨hleo, rfl⟩ := hpassing
    refine ⟨leo, ?_, Or.inl ?_⟩
    · exact (PartitionStateMachine.logEndOf_mark _).trans
        ((PartitionStateMachine.logEndOf_recordClamped _).trans hleo)
    · exact (Database.nextOffset_clampCheckpoint leo).ge
  | @reveal status world =>
    cases status with
    | ready => exact hpassing
    | _ => trivial
  | _ => trivial

/-- A record below a log end that is passed lies below the next offset to replay. -/
theorem Passed.lt_nextOffset {bound : ℤ} (hpassed : Passed job world bound) {entry : ℤ × Message}
    (hentry : entry ∈ (job.log world).entries) (hlt : entry.1 < bound) :
    entry.1 < PartitionStateMachine.nextOffset (world.database.checkpoint job.tp) := by
  have hstart := ((job.log world).bounded entry hentry).1
  rcases hpassed with hnext | hretained
  · exact hlt.trans_le hnext
  · omega

end KSQLite.Rehydrate
