import KSQLite.Runs.Footprint
import KSQLite.Store.Sample

/-!
# The persisted checkpoint

Three statements write the checkpoint of a partition: the upsert of an append, the upsert of a
batch and the clamp. Whatever the surroundings do to the log, every step of every operation keeps
the checkpoint or raises it, but for one clamp: that of a rehydrate which was reset, replayed up to
its captured log end and found a checkpoint at or past it (`checkpoint_monotone`). The other clamp,
to the offset before the start of an empty log, never lowers. A checkpoint is never less than -1
(`floored_of_run`).
-/

set_option autoImplicit false
set_option relaxedAutoImplicit false

namespace KSQLite.Runs

open KSQLite.Suspension KSQLite.Store KSQLite.Rehydrate

/-- What is known where a clamp is due: the log end was captured, and the loop was left there after
a reset. -/
def ClampDue (job : Job) (origin : Point × World) : Point → World → Prop
  | .opened _ leo, world | .polling leo _ _, world | .resetting leo _ _, world
  | .seeking leo _ _, world | .materializing leo _ _ _ _, world | .deciding leo _ _, world =>
    world.memory.state.logEndOf job.tp = some leo
  | .clamping leo replay, world =>
    world.memory.state.logEndOf job.tp = some leo ∧ replay.position = leo ∧
      replay.resetOccurred = true
  | .clampingTo leo target, world =>
    world.memory.state.logEndOf job.tp = some leo ∧ ∃ replay found,
      Reaches job origin (.clamping leo replay, found) ∧ found.database = world.database ∧
      replay.position = leo ∧ replay.resetOccurred = true ∧
      clampTarget (world.database.checkpoint job.tp) leo replay.resetLogStart
        replay.replayedAfterReset = some target
  | _, _ => True

variable {job : Job} {origin : Point × World} {world next : World}

theorem clampDue_step {point after : Point} (hreaches : Reaches job origin (point, world))
    (hstep : Step job (point, world) (after, next)) (hdue : ClampDue job origin point world) :
    ClampDue job origin after next := by
  cases hstep with
  | drift _ _ => cases point <;> exact hdue
  | capture _ => exact World.capture_logEndOf
  | idle _ hnothing =>
    obtain ⟨idlePolls, rfl⟩ := hnothing.exists_idlePolls
    exact hdue
  | fetch _ _ hfetches _ =>
    obtain ⟨_, _, _, _, _, _, rfl⟩ := hfetches
    exact hdue
  | materialize _ _ => exact (PartitionStateMachine.logEndOf_recordApplied _).trans hdue
  | leaveReset hposition hreset => exact ⟨hdue, hposition, hreset⟩
  | aim htarget => exact ⟨hdue.1, _, _, hreaches, rfl, hdue.2.1, hdue.2.2, htarget⟩
  | openCold | openWarm _ | lose _ _ | readStart | reset | goOn => exact hdue
  | _ => trivial

/-- Wherever the machine gets, a clamp that is due has its reasons. -/
theorem Reaches.clampDue {state : Point × World} (hreaches : Reaches job origin state)
    (horigin : ClampDue job origin origin.1 origin.2) : ClampDue job origin state.1 state.2 := by
  induction hreaches with
  | refl => exact horigin
  | tail hbefore hlast ih => exact clampDue_step hbefore hlast ih

/-- The clamp of a rehydrate of a partition that was reset, left its loop at the captured log end
and found a checkpoint at or past it: the checkpoint becomes the offset before the log end. -/
def ClampedToLogEnd (settings : Settings) (conditions : Conditions) (fuel : ℕ)
    (tp : TopicPartition) (world next : World) : Prop :=
  ∃ deadline entered leo replay found stored,
    Reaches ⟨settings, conditions, tp, settings.template tp, deadline, fuel⟩ (.checking, entered)
      (.clamping leo replay, found) ∧ found.database = world.database ∧
    replay.resetOccurred = true ∧ replay.position = leo ∧
    world.memory.state.logEndOf tp = some leo ∧ world.database.checkpoint tp = some stored ∧
    leo ≤ stored ∧ next.database.checkpoint tp = some (leo - 1)

/-- A clamp lowers the checkpoint to the offset before a log end at or below it, or not at all. -/
theorem clampTarget_lowers {stored : Option ℤ} {leo logStart target : ℤ} {count : ℕ}
    (htarget : clampTarget stored leo logStart count = some target) :
    AtLeast stored (some target) ∨ target = leo - 1 ∧ ∃ checkpoint, stored = some checkpoint ∧
      leo ≤ checkpoint := by
  unfold clampTarget at htarget
  split_ifs at htarget with hhigh hgap
  · obtain ⟨checkpoint, hstored, hlt⟩ := hhigh
    exact Or.inr ⟨(Option.some.inj htarget).symm, checkpoint, hstored, by omega⟩
  · obtain rfl := Option.some.inj htarget
    refine Or.inl fun checkpoint hstored ↦ ⟨_, rfl, ?_⟩
    have hlow : ¬ leo - 1 < checkpoint := fun hlt ↦ hhigh ⟨checkpoint, hstored, hlt⟩
    omega

/-- A clamp that is pending in an assignment keeps the checkpoint, raises it, or clamps it to the
log end. -/
theorem clamp_of_pending {settings : Settings} {conditions : Conditions} {fuel : ℕ}
    {tp : TopicPartition} {target : ℤ} {assigned : List TopicPartition}
    (hpending : AssignPending settings conditions fuel assigned
      (.transaction (.checkpointClamp tp target)) world)
    (hclamped : next.database = world.database.clampCheckpoint tp target) :
    AtLeast (world.database.checkpoint tp) (next.database.checkpoint tp) ∨
      ClampedToLogEnd settings conditions fuel tp world next := by
  obtain ⟨source, _, deadline, entered, point, hreaches, hawaits⟩ := hpending
  have hnext : next.database.checkpoint tp = some target := by
    rw [hclamped]
    exact Database.setCheckpoint_checkpoint_self
  cases hawaits with
  | clamp =>
    obtain ⟨hleo, replay, found, hclamping, hfound, hposition, hreset, htarget⟩ :=
      Reaches.clampDue hreaches trivial
    rcases clampTarget_lowers htarget with hraised | ⟨rfl, stored, hstored, hle⟩
    · exact Or.inl (hnext ▸ hraised)
    · exact Or.inr ⟨deadline, entered, _, replay, found, stored, hclamping, hfound, hreset,
        hposition, hleo, hstored, hle, hnext⟩

/-- No checkpoint lies before -1. -/
def Floored (database : Database) : Prop :=
  ∀ tp, ∀ checkpoint ∈ database.checkpoint tp, -1 ≤ checkpoint

/-- The offsets a rehydrate works with lie at zero or later, and what it clamps to at -1 or
later. -/
def Nonnegative : Point → World → Prop
  | .opened _ leo, _ => 0 ≤ leo
  | .polling leo _ replay, _ | .resetting leo _ replay, _ | .seeking leo _ replay, _
  | .deciding leo _ replay, _ | .clamping leo replay, _ => 0 ≤ leo ∧ 0 ≤ replay.resetLogStart
  | .materializing leo _ replay _ last, _ => (0 ≤ leo ∧ 0 ≤ replay.resetLogStart) ∧ 0 ≤ last.1
  | .clampingTo _ target, _ => -1 ≤ target
  | _, _ => True

theorem nonnegative_step {point after : Point} (hstep : Step job (point, world) (after, next))
    (hpoint : Nonnegative point world) : Nonnegative after next := by
  cases hstep with
  | drift _ _ => cases point <;> exact hpoint
  | capture hleo =>
    rw [Nonnegative, hleo]
    exact (job.log world).start_nonneg.trans (job.log world).start_le_stop
  | openCold => exact ⟨hpoint, le_refl 0⟩
  | openWarm _ => exact ⟨hpoint, le_refl 0⟩
  | readStart => exact ⟨hpoint.1, (job.log world).start_nonneg⟩
  | fetch _ _ hfetches hlast =>
    obtain ⟨_, _, _, _, hbatch, _, rfl⟩ := hfetches
    have hmem := (hbatch.mem (List.mem_of_getLast? hlast)).1
    exact ⟨hpoint, (job.log world).start_nonneg.trans ((job.log world).bounded _ hmem).1⟩
  | materialize _ _ => exact hpoint.1
  | @aim leo replay world target htarget =>
    obtain ⟨hleo, hstart⟩ := hpoint
    unfold clampTarget at htarget
    change -1 ≤ target
    split_ifs at htarget
    · have := Option.some.inj htarget
      omega
    · have := Option.some.inj htarget
      omega
  | idle _ _ => exact hpoint
  | lose _ _ => exact hpoint
  | reset => exact hpoint
  | goOn => exact hpoint
  | leaveReset _ _ => exact hpoint
  | _ => trivial

/-- What may be committed without a checkpoint before -1. -/
def KeepsFloor : Commit → Prop
  | .work (.materializeBatch _ _ offset) => 0 ≤ offset
  | .work (.applyMaterialization row) => 0 ≤ row.changelogOffset
  | .work (.checkpointClamp _ target) => -1 ≤ target
  | _ => True

/-- Storing an offset from -1 on keeps the floor. -/
theorem Floored.setCheckpoint {database : Database} {tp : TopicPartition} {offset : ℤ}
    (hfloored : Floored database) (hoffset : -1 ≤ offset) :
    Floored (database.setCheckpoint tp offset) := by
  intro other checkpoint hcheckpoint
  by_cases hother : other = tp
  · subst hother
    rw [Database.setCheckpoint_checkpoint_self] at hcheckpoint
    exact Option.some.inj hcheckpoint ▸ hoffset
  · rw [Database.setCheckpoint_checkpoint_of_ne hother] at hcheckpoint
    exact hfloored other checkpoint hcheckpoint

theorem Floored.upsertCheckpoint {database : Database} {tp : TopicPartition} {offset : ℤ}
    (hfloored : Floored database) (hoffset : 0 ≤ offset) :
    Floored (database.upsertCheckpoint tp offset) := by
  have hle := PartitionStateMachine.le_maxOffset (database.checkpoint tp) offset
  exact hfloored.setCheckpoint (by omega)

theorem Floored.of_run {commit : Commit} {json : String → Option String} {before after : Database}
    (hfloored : Floored before) (hcommit : KeepsFloor commit)
    (hrun : commit.run json before = .ok after) : Floored after := by
  cases commit with
  | deleteAllOwned =>
    cases hrun
    exact hfloored
  | work work =>
    cases work with
    | materializeBatch tp records offset =>
      obtain ⟨_, rfl⟩ := run_materializeBatch_eq_ok.mp hrun
      have hinserted : Floored (before.insertRows (records.filterMap (rowOf json tp))) := by
        intro other checkpoint hcheckpoint
        rw [Database.insertRows_checkpoint] at hcheckpoint
        exact hfloored other checkpoint hcheckpoint
      exact hinserted.upsertCheckpoint hcommit
    | applyMaterialization row =>
      obtain ⟨payload, _, rfl⟩ := Database.applyMaterialization_eq_ok.mp hrun
      have hinserted : Floored (before.insertRow { row with payload := payload }) := hfloored
      exact hinserted.upsertCheckpoint hcommit
    | ownedInsert tp =>
      cases hrun
      exact hfloored
    | ownedDelete tp =>
      cases hrun
      exact hfloored
    | checkpointClamp tp target =>
      cases hrun
      exact hfloored.setCheckpoint hcommit

/-- What an operation commits keeps the floor. -/
theorem keepsFloor_of_footprint {settings : Settings} {conditions : Conditions} {fuel : ℕ}
    {operation : Operation} {commit : Commit}
    (hfootprint : AtCall (operation.Footprint settings conditions fuel) commit.request world) :
    KeepsFloor commit := by
  cases commit with
  | deleteAllOwned => trivial
  | work work =>
    cases operation with
    | start =>
      rcases hfootprint with hinert | hempties
      · cases hinert
      · cases hempties
    | append source entityKey payload =>
      rcases hfootprint with ⟨_, _, hcall⟩ | ⟨row, _, hoffset, hcall⟩
      · cases hcall
      · cases hcall
        exact hoffset
    | assign assigned =>
      obtain ⟨_, _, _, _, point, hreaches, hawaits⟩ := hfootprint
      have hpoint : Nonnegative point world :=
        hreaches.invariant Nonnegative nonnegative_step trivial
      cases hawaits with
      | materialize => exact hpoint.2
      | clamp => exact hpoint
      | reveal => trivial
    | revoke revoked =>
      obtain ⟨_, _, hcall⟩ := hfootprint
      cases hcall
      trivial
    | restart => exact hfootprint.elim

/-- A run of an operation keeps the floor. -/
theorem floored_of_steps {settings : Settings} {conditions : Conditions} {fuel : ℕ}
    {operation : Operation} {trace : List (Exchange requests World)} {rest : Action Unit}
    (hfloored : Floored world.database)
    (hsteps : Steps (environment settings conditions) (operation.action settings fuel) world trace
      rest next) : Floored next.database := by
  refine related_of_steps (fun before after ↦ Floored before → Floored after) (fun _ ↦ id)
    (fun hfirst hsecond hbefore ↦ hsecond (hfirst hbefore)) hsteps ?_ hfloored
  intro exchange hexchange commit hcommitted after hrun hbefore
  have hfootprint := (holds_footprint operation world).exchange hsteps hexchange
  rw [request_of_committed hcommitted] at hfootprint
  exact hbefore.of_run (keepsFloor_of_footprint hfootprint) hrun

/-- A history over a database without checkpoints keeps the floor. -/
theorem floored_of_run {settings : Settings} {conditions : Conditions} {fuel : ℕ}
    {admits : Operation → World → Outcome Error Unit → World → Prop}
    (hfloored : Floored world.database) (hrun : Run settings conditions fuel admits world next) :
    Floored next.database := by
  induction hrun with
  | refl => exact hfloored
  | step _ hsteps _ ih => exact floored_of_steps ih hsteps

/-- A store with a checkpoint whose partition is about to be revoked. -/
def revoking : World :=
  (Sample.world Sample.firstApplied (Sample.broker (Sample.log [Sample.first]) none)).onState
    (·.markReady Sample.orders)

end KSQLite.Runs
