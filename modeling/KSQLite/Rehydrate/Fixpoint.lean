import KSQLite.Rehydrate.Frozen
import KSQLite.Store.Sample

/-!
# `READY` is a fixpoint of the rehydrate

On a changelog that nobody touches, a rehydrate that ends `READY` leaves the next offset to replay
at the captured log end, in the database and in memory, and so a lag of zero
(`AtLogEnd`). The five ways to `READY` and the two clamps all lead there: `Aligned` says what the
checkpoint and the position have to do with each other before and after a reset. Revoking and
assigning the partition again then fetches nothing, resets nothing and clamps nothing
(`ready_is_fixpoint`).
-/

set_option autoImplicit false
set_option relaxedAutoImplicit false

namespace KSQLite.Rehydrate

open KSQLite.Log KSQLite.Suspension KSQLite.Store

/-- Nobody touches the broker. -/
def Frozen (conditions : Conditions) : Prop := ∀ broker next, ¬ conditions.disturbs broker next

/-- The checkpoint in memory is the persisted one, the next offset to replay is the log end, which
is the captured one, and the lag is zero. -/
def AtLogEnd (tp : TopicPartition) (name : String) (world : World) : Prop :=
  world.memory.state.checkpointOf tp = world.database.checkpoint tp ∧
    world.memory.state.logEndOf tp = some (world.broker.changelogs name).stop ∧
    PartitionStateMachine.nextOffset (world.database.checkpoint tp) =
      (world.broker.changelogs name).stop ∧
    world.memory.state.lag tp = some 0

/-- Neither a fetch, nor a reset, nor a clamp. -/
def ReadsNothing : Call → Prop
  | .getmany _ _ | .beginningOffset _ | .transaction (.checkpointClamp _ _) => False
  | _ => True

/-- The rows and the checkpoint are the same. -/
def Unchanged (tp : TopicPartition) (before after : World) : Prop :=
  after.database.records = before.database.records ∧
    after.database.checkpoint tp = before.database.checkpoint tp

/-- Revoking a partition and assigning it again. -/
def reassign (settings : Settings) (fuel : ℕ) (tp : TopicPartition) : Action Unit := do
  onPartitionsRevoked [tp]
  onPartitionsAssigned settings fuel [tp]

/-- A second revocation and assignment, whatever fails in it, reads nothing and changes neither
rows nor checkpoint. -/
def StaysWhenReassigned (settings : Settings) (conditions : Conditions) (tp : TopicPartition)
    (fuel : ℕ) (world : World) : Prop :=
  Holds (environment settings conditions)
    (AtCall fun call between ↦ ReadsNothing call ∧ Unchanged tp world between)
    (fun _ final ↦ Unchanged tp world final) (reassign settings fuel tp) world

/-! ### Reaching the log end -/

section Reaching

variable {job : Job} {world next : World} {leo : ℤ}

/-- What the position and the checkpoint have to do with each other. Before a reset the position is
the next offset, and the consumer is not behind it. After one, either nothing was replayed and the
position is the log start, or the next offset is not behind the position. -/
def Tracks (job : Job) (world : World) (replay : Replay) : Prop :=
  (replay.resetOccurred = false ∧
      PartitionStateMachine.nextOffset (world.database.checkpoint job.tp) = replay.position ∧
      ∀ fetch, world.memory.fetchPosition job.name = some fetch → replay.position ≤ fetch) ∨
    (replay.resetOccurred = true ∧
      (replay.replayedAfterReset = 0 ∧ replay.position = replay.resetLogStart ∨
        0 < replay.replayedAfterReset ∧ replay.position ≤
          PartitionStateMachine.nextOffset (world.database.checkpoint job.tp)))

/-- The checkpoint in memory is the persisted one, and the log end was captured. -/
def Synced (job : Job) (world : World) (leo : ℤ) : Prop :=
  world.memory.state.checkpointOf job.tp = world.database.checkpoint job.tp ∧
    world.memory.state.logEndOf job.tp = some leo ∧ leo = (job.log world).stop

/-- The next offset to replay is the captured log end. -/
def Arrived (job : Job) (world : World) (leo : ℤ) : Prop :=
  Synced job world leo ∧
    PartitionStateMachine.nextOffset (world.database.checkpoint job.tp) = leo

/-- What holds at each point of a rehydrate of a frozen log. -/
def Aligned (job : Job) : Point → World → Prop
  | .entered, world => world.memory.state.checkpointOf job.tp = none ∨
    world.memory.state.checkpointOf job.tp = world.database.checkpoint job.tp
  | .seeded checkpoint, world | .connected checkpoint, world =>
    checkpoint = world.database.checkpoint job.tp ∧
      world.memory.state.checkpointOf job.tp = world.database.checkpoint job.tp
  | .opened checkpoint leo, world =>
    checkpoint = world.database.checkpoint job.tp ∧ Synced job world leo
  | .polling leo _ replay, world | .deciding leo _ replay, world =>
    Synced job world leo ∧ Tracks job world replay
  | .resetting leo _ _, world => Synced job world leo
  | .seeking leo _ replay, world =>
    Synced job world leo ∧ replay.resetOccurred = true ∧ replay.replayedAfterReset = 0 ∧
      replay.position = replay.resetLogStart
  | .materializing leo _ replay _ last, world =>
    Synced job world leo ∧ FetchesFrom job.name world (last.1 + 1) ∧
      (replay.resetOccurred = false →
        PartitionStateMachine.nextOffset (world.database.checkpoint job.tp) ≤ last.1)
  | .clamping leo replay, world =>
    Synced job world leo ∧ (replay.replayedAfterReset = 0 ∧ leo = replay.resetLogStart ∨
      leo ≤ PartitionStateMachine.nextOffset (world.database.checkpoint job.tp))
  | .clampingTo leo target, world => Synced job world leo ∧ target = leo - 1
  | .revealing .ready, world | .revealed .ready, world => ∃ leo, Arrived job world leo
  | .revealing _, _ | .revealed _, _ => True
  | .checking, _ | .unreached, _ | .captured, _ => False

/-- Seeding brings the checkpoint in memory to the persisted one. -/
theorem checkpointOf_seed (hstart : world.memory.state.checkpointOf job.tp = none ∨
      world.memory.state.checkpointOf job.tp = world.database.checkpoint job.tp) :
    (world.seed job.tp (world.database.checkpoint job.tp)).memory.state.checkpointOf job.tp =
      world.database.checkpoint job.tp := by
  cases hstored : world.database.checkpoint job.tp with
  | none =>
    rw [hstored, or_self] at hstart
    exact hstart
  | some checkpoint =>
    rw [hstored] at hstart
    change (world.memory.state.recordApplied job.tp checkpoint).checkpointOf job.tp = _
    rw [PartitionStateMachine.checkpointOf_recordApplied]
    rcases hstart with hnone | hsome
    · rw [hnone]
      rfl
    · rw [hsome, PartitionStateMachine.maxOffset_self]

/-- The consumer moved, and the replay goes on at the start of the log. -/
theorem Tracks.seek_start {replay : Replay} {offset : ℤ} (hreset : replay.resetOccurred = true)
    (hcount : replay.replayedAfterReset = 0) (hposition : replay.position = replay.resetLogStart) :
    Tracks job (world.seek offset) replay :=
  Or.inr ⟨hreset, Or.inl ⟨hcount, hposition⟩⟩

/-- A committed batch leaves the next offset at its end before a reset, and not behind it after
one. -/
theorem aligned_of_materializing {rounds : ℕ} {replay : Replay} {records : List (ℤ × Message)}
    {last : ℤ × Message} {database : Database} (hlast : records.getLast? = some last)
    (hpoint : Aligned job (.materializing leo rounds replay records last) world)
    (hrun : (Work.materializeBatch job.tp records last.1).run job.settings.json world.database =
      .ok database) :
    Aligned job (.deciding leo rounds (replay.advance records.length last.1))
      ((world.commit database).onState (·.recordApplied job.tp last.1)) := by
  obtain ⟨⟨hmemory, hcaptured, hleo⟩, hfrom, hbehind⟩ := hpoint
  have hpositive : 0 < records.length := List.length_pos_of_mem (List.mem_of_getLast? hlast)
  have hstored := checkpoint_of_run hrun
  refine ⟨⟨?_, by simpa using hcaptured, hleo⟩, ?_⟩
  · simp only [World.onState_state, World.commit_memory, World.onState_database,
      World.commit_database, PartitionStateMachine.checkpointOf_recordApplied, hstored, hmemory]
  · have hpast := PartitionStateMachine.lt_nextOffset_maxOffset
      (world.database.checkpoint job.tp) last.1
    rw [← hstored] at hpast
    by_cases hreset : replay.resetOccurred = true
    · refine Or.inr ⟨hreset, Or.inr ⟨Nat.add_pos_right _ hpositive, ?_⟩⟩
      exact hpast
    · have hfalse : replay.resetOccurred = false := by simpa using hreset
      refine Or.inl ⟨hfalse, ?_, fun fetch hfetch ↦ (hfrom fetch hfetch).ge⟩
      have hbefore := hbehind hfalse
      change PartitionStateMachine.nextOffset (database.checkpoint job.tp) = last.1 + 1
      rw [hstored]
      rcases PartitionStateMachine.nextOffset_maxOffset (world.database.checkpoint job.tp) last.1
        with hold | hnew
      · rw [hstored, hold] at hpast
        omega
      · exact hnew

/-- A fetch before a reset returns nothing below the next offset. -/
theorem aligned_of_fetches {rounds : ℕ} {replay : Replay} {records : List (ℤ × Message)}
    {last : ℤ × Message} (hsynced : Synced job world leo) (htracks : Tracks job world replay)
    (hfetches : Fetches world job.name job.settings.batchSize records next)
    (hlast : records.getLast? = some last) :
    Aligned job (.materializing leo rounds replay records last) next := by
  obtain ⟨fetch, end', hfetch, _, hbatch, hend, rfl⟩ := hfetches
  obtain rfl : last = end' := Option.some.inj (hlast.symm.trans hend)
  refine ⟨hsynced, FetchesFrom.seek _, fun hfalse ↦ ?_⟩
  rcases htracks with ⟨_, hnext, hahead⟩ | ⟨htrue, _⟩
  · have hfetched := (hbatch.last_mem hlast).2
    have hposition := hahead fetch hfetch
    change PartitionStateMachine.nextOffset (world.database.checkpoint job.tp) ≤ last.1
    omega
  · rw [hfalse] at htrue
    cases htrue

/-- With no clamp due, the next offset is the captured log end. -/
theorem arrived_of_keep {replay : Replay} (hpoint : Aligned job (.clamping leo replay) world)
    (hkeep : clampTarget (world.database.checkpoint job.tp) leo replay.resetLogStart
      replay.replayedAfterReset = none) : Arrived job world leo := by
  obtain ⟨hsynced, hposition⟩ := hpoint
  refine ⟨hsynced, ?_⟩
  have hleo : 0 ≤ leo := by
    rw [hsynced.2.2]
    exact (job.log world).start_nonneg.trans (job.log world).start_le_stop
  unfold clampTarget at hkeep
  split_ifs at hkeep with hhigh hgap
  rcases hposition with ⟨hcount, hstart⟩ | hbehind
  · exact absurd ⟨hcount, hstart.symm⟩ hgap
  · cases hstored : world.database.checkpoint job.tp with
    | none =>
      rw [hstored] at hbehind
      exact le_antisymm hleo hbehind
    | some checkpoint =>
      rw [hstored] at hbehind hhigh
      have hbelow : ¬ leo - 1 < checkpoint := fun hlt ↦ hhigh ⟨checkpoint, rfl, hlt⟩
      change checkpoint + 1 = leo
      change leo ≤ checkpoint + 1 at hbehind
      omega

theorem Arrived.mark {status : PartitionStatus} (harrived : Arrived job world leo) :
    Arrived job (world.onState (·.mark job.tp status)) leo := by
  obtain ⟨⟨hmemory, hcaptured, hleo⟩, hnext⟩ := harrived
  exact ⟨⟨by simpa using hmemory, by simpa using hcaptured, hleo⟩, hnext⟩

/-- Every step of a rehydrate of a frozen log keeps the invariant. -/
theorem aligned_step (hfrozen : Frozen job.conditions) {point after : Point}
    (hstep : Step job (point, world) (after, next)) (hpoint : Aligned job point world) :
    Aligned job after next := by
  cases hstep with
  | drift _ hdisturb => exact absurd hdisturb (hfrozen _ _)
  | createTopic => exact hpoint.elim
  | check => exact hpoint.elim
  | enter => exact hpoint.elim
  | skip _ => exact hpoint.elim
  | seed => exact ⟨by rw [World.seed_database], by
      rw [World.seed_database]; exact checkpointOf_seed hpoint⟩
  | keepConsumer => exact hpoint
  | connect _ => exact hpoint
  | capture hleo =>
    refine ⟨hpoint.1, ?_, World.capture_logEndOf, hleo⟩
    simpa [World.capture, World.assign, World.onState, PartitionStateMachine.markRestoring]
      using hpoint.2
  | openCold =>
    refine ⟨hpoint.2, Or.inl ⟨rfl, ?_, fun fetch hfetch ↦ ?_⟩⟩
    · change PartitionStateMachine.nextOffset (world.database.checkpoint job.tp) = 0
      rw [← hpoint.1]
      rfl
    · rw [Memory.fetchPosition_seek hfetch]
      exact (job.log world).start_nonneg
  | openWarm _ =>
    refine ⟨hpoint.2, Or.inl ⟨rfl, ?_, fun fetch hfetch ↦ ?_⟩⟩
    · change PartitionStateMachine.nextOffset (world.database.checkpoint job.tp) = _
      rw [← hpoint.1]
      rfl
    · exact (Memory.fetchPosition_seek hfetch).ge
  | idle _ hnothing =>
    obtain ⟨idlePolls, rfl⟩ := hnothing.exists_idlePolls
    exact hpoint
  | lose _ _ => exact hpoint.1
  | readStart => exact ⟨hpoint, rfl, rfl, rfl⟩
  | reset => exact ⟨hpoint.1, .seek_start hpoint.2.1 hpoint.2.2.1 hpoint.2.2.2⟩
  | fetch _ _ hfetches hlast => exact aligned_of_fetches hpoint.1 hpoint.2 hfetches hlast
  | materialize hlast hrun => exact aligned_of_materializing hlast hpoint hrun
  | goOn => exact hpoint
  | expire _ _ => trivial
  | leave hposition hreset =>
    refine ⟨_, Arrived.mark ⟨hpoint.1, ?_⟩⟩
    rcases hpoint.2 with ⟨_, hnext, _⟩ | ⟨htrue, _⟩
    · exact hnext.trans hposition
    · rw [hreset] at htrue
      cases htrue
  | leaveReset hposition hreset =>
    refine ⟨hpoint.1, ?_⟩
    rcases hpoint.2 with ⟨hfalse, _⟩ | ⟨_, hbranches⟩
    · rw [hreset] at hfalse
      cases hfalse
    · rw [hposition] at hbranches
      exact hbranches.imp_right And.right
  | keep hkeep => exact ⟨_, (arrived_of_keep hpoint hkeep).mark⟩
  | aim htarget => exact ⟨hpoint.1, clampTarget_eq htarget⟩
  | clamp =>
    obtain ⟨⟨_, hcaptured, hleo⟩, rfl⟩ := hpoint
    refine ⟨_, Arrived.mark ⟨⟨?_, by simpa using hcaptured, hleo⟩, ?_⟩⟩
    · simp [Database.clampCheckpoint]
    · simp [Database.clampCheckpoint, PartitionStateMachine.nextOffset]
  | @reveal status world =>
    cases status with
    | ready => exact hpoint
    | _ => trivial
  | keepUnreached => exact hpoint.elim
  | captureUnreached _ => exact hpoint.elim
  | seedUnreached => exact hpoint.elim

theorem Arrived.atLogEnd (harrived : Arrived job world leo) : AtLogEnd job.tp job.name world := by
  obtain ⟨⟨hmemory, hcaptured, rfl⟩, hnext⟩ := harrived
  refine ⟨hmemory, hcaptured, hnext, ?_⟩
  unfold PartitionStateMachine.lag
  rw [hcaptured, hmemory, hnext]
  exact congrArg some (sub_self _)

end Reaching

/-! ### Reassigning -/

section Reassigning

variable {job : Job} {base world next : World}

/-- Rows and checkpoint are the same, and the next offset to replay is the log end. -/
def Rests (tp : TopicPartition) (name : String) (base world : World) : Prop :=
  Unchanged tp base world ∧
    PartitionStateMachine.nextOffset (world.database.checkpoint tp) =
      (world.broker.changelogs name).stop

/-- What holds at each point of a rehydrate that starts at the log end: its loop is left at once. -/
def Still (job : Job) (base : World) : Point → World → Prop
  | .seeded checkpoint, world | .connected checkpoint, world =>
    checkpoint = world.database.checkpoint job.tp ∧ Rests job.tp job.name base world
  | .opened checkpoint leo, world =>
    checkpoint = world.database.checkpoint job.tp ∧ leo = (job.log world).stop ∧
      Rests job.tp job.name base world
  | .polling leo _ replay, world =>
    replay.position = leo ∧ replay.resetOccurred = false ∧ Rests job.tp job.name base world
  | .checking, world | .entered, world | .unreached, world | .captured, world
  | .revealing _, world | .revealed _, world => Rests job.tp job.name base world
  | .resetting _ _ _, _ | .seeking _ _ _, _ | .materializing _ _ _ _ _, _ | .deciding _ _ _, _
  | .clamping _ _, _ | .clampingTo _ _, _ => False

theorem Still.rests {point : Point} (hpoint : Still job base point world) :
    Rests job.tp job.name base world := by
  cases point with
  | seeded _ => exact hpoint.2
  | connected _ => exact hpoint.2
  | opened _ _ => exact hpoint.2.2
  | polling _ _ _ => exact hpoint.2.2
  | resetting _ _ _ => exact hpoint.elim
  | seeking _ _ _ => exact hpoint.elim
  | materializing _ _ _ _ _ => exact hpoint.elim
  | deciding _ _ _ => exact hpoint.elim
  | clamping _ _ => exact hpoint.elim
  | clampingTo _ _ => exact hpoint.elim
  | _ => exact hpoint

theorem Rests.seed (checkpoint : Option ℤ) (hrests : Rests job.tp job.name base world) :
    Rests job.tp job.name base (world.seed job.tp checkpoint) := by
  unfold Rests Unchanged
  rw [World.seed_database, World.seed_broker]
  exact hrests

/-- Every step of a rehydrate that starts at the log end keeps rows and checkpoint. -/
theorem still_step (hfrozen : Frozen job.conditions) {point after : Point}
    (hstep : Step job (point, world) (after, next)) (hpoint : Still job base point world) :
    Still job base after next := by
  cases hstep with
  | drift _ hdisturb => exact absurd hdisturb (hfrozen _ _)
  | createTopic => exact hpoint
  | check => exact hpoint
  | enter => exact hpoint
  | skip _ => exact hpoint
  | seed => exact ⟨by rw [World.seed_database], Rests.seed _ hpoint⟩
  | keepConsumer => exact hpoint
  | connect _ => exact hpoint
  | capture hleo => exact ⟨hpoint.1, hleo, hpoint.2⟩
  | openCold =>
    obtain ⟨hcheckpoint, rfl, hrests⟩ := hpoint
    refine ⟨?_, rfl, hrests⟩
    have hend := hrests.2
    rw [← hcheckpoint] at hend
    exact hend
  | openWarm _ =>
    obtain ⟨hcheckpoint, rfl, hrests⟩ := hpoint
    refine ⟨?_, rfl, hrests⟩
    have hend := hrests.2
    rw [← hcheckpoint] at hend
    exact hend
  | idle hposition _ => exact absurd hpoint.1 hposition
  | lose hposition _ => exact absurd hpoint.1 hposition
  | readStart => exact hpoint.elim
  | reset => exact hpoint.elim
  | fetch hposition _ _ _ => exact absurd hpoint.1 hposition
  | materialize _ _ => exact hpoint.elim
  | goOn => exact hpoint.elim
  | expire _ _ => exact hpoint.elim
  | leave _ _ => exact hpoint.2.2
  | leaveReset _ hreset =>
    rw [hpoint.2.1] at hreset
    cases hreset
  | keep _ => exact hpoint.elim
  | aim _ => exact hpoint.elim
  | clamp => exact hpoint.elim
  | reveal => exact hpoint
  | keepUnreached => exact hpoint
  | captureUnreached _ => exact hpoint
  | seedUnreached => exact Rests.seed _ hpoint

/-- No call of a rehydrate that starts at the log end fetches, resets or clamps. -/
theorem Still.readsNothing {point : Point} {call : Call} (hpoint : Still job base point world)
    (hawaits : Awaits job.settings job.tp job.name point call) : ReadsNothing call := by
  cases hawaits with
  | poll hposition => exact absurd hpoint.1 hposition
  | readStart => exact hpoint.elim
  | clamp => exact hpoint.elim
  | _ => trivial

/-- Assigning a partition whose next offset is the log end keeps rows and checkpoint. -/
theorem holds_assignOne_at_end {settings : Settings} {conditions : Conditions}
    {tp : TopicPartition} {name : String} {deadline : ℤ} {fuel : ℕ} {first : Bool}
    (hfrozen : Frozen conditions)
    (hname : settings.template tp = name)
    (hrests : Rests tp name base world) :
    Holds (environment settings conditions)
      (AtCall fun call between ↦ ReadsNothing call ∧ Unchanged tp base between)
      (fun _ ↦ Rests tp name base) (assignOne settings fuel deadline first tp) world := by
  let job : Job := ⟨settings, conditions, tp, name, deadline, fuel⟩
  have hstill {state : Point × World} (hreaches : Reaches job (.checking, world) state) :
      Still job base state.1 state.2 :=
    hreaches.invariant (Still job base) (still_step hfrozen) hrests
  have horigin : Reaches job (.checking, world) (.checking, world) := .refl
  refine (assignOne_refines hname horigin).mono ?_ ?_
  · intro request between hmoment
    cases request with
    | call call =>
      obtain ⟨point, hreaches, hawaits⟩ := hmoment
      exact ⟨(hstill hreaches).readsNothing hawaits, (hstill hreaches).rests.1⟩
    | _ => trivial
  · intro outcome final hends
    cases outcome with
    | returned value =>
      obtain ⟨status, hreaches⟩ := hends
      exact (hstill hreaches).rests
    | raised error =>
      obtain ⟨point, hreaches, _⟩ := hends
      exact (hstill hreaches).rests
    | exhausted =>
      obtain ⟨leo, replay, hreaches, _⟩ := hends
      exact (hstill hreaches).rests

/-- Revoking keeps rows and checkpoint. -/
theorem holds_revokeOne_at_end {settings : Settings} {conditions : Conditions}
    {tp : TopicPartition} {name : String} (hfrozen : Frozen conditions)
    (hrests : Rests tp name base world) :
    Holds (environment settings conditions)
      (AtCall fun call between ↦ ReadsNothing call ∧ Unchanged tp base between)
      (fun _ ↦ Rests tp name base) (revokeOne tp) world := by
  refine holds_revokeOne.mpr ?_
  split_ifs
  · exact hrests
  · intro broker hdrifts
    obtain rfl : broker = world.broker := by
      rcases hdrifts.cases_head with heq | ⟨_, hdisturb, _⟩
      · exact heq.symm
      · exact absurd hdisturb (hfrozen _ _)
    exact ⟨⟨trivial, hrests.1⟩, fun _ _ ↦ hrests, hrests⟩

end Reassigning

/-- A rehydrate of a frozen log that ends `READY` leaves the next offset to replay at the log end,
in the database and in memory, with a lag of zero; and to revoke and assign the partition again
fetches, resets and clamps nothing and changes neither rows nor checkpoint.
Assumes: the checkpoint in memory is absent or the persisted one, and the changelog is that of
the partition. -/
theorem ready_is_fixpoint {settings : Settings} {conditions : Conditions} {tp : TopicPartition}
    {name : String} {deadline : ℤ} {fuel rounds : ℕ} {world : World} (hfrozen : Frozen conditions)
    (hname : settings.template tp = name)
    (hmemory : world.memory.state.checkpointOf tp = none ∨
      world.memory.state.checkpointOf tp = world.database.checkpoint tp) :
    Holds (environment settings conditions) (AtCall fun _ _ ↦ True)
      (fun outcome final ↦ outcome = .returned () →
        final.memory.state.statusOf tp = some .ready →
        AtLogEnd tp name final ∧ StaysWhenReassigned settings conditions tp rounds final)
      (rehydrateOne settings fuel tp name deadline) world := by
  let job : Job := ⟨settings, conditions, tp, name, deadline, fuel⟩
  have hrefines := rehydrateOne_refines (.refl : Reaches job (.entered, world) (.entered, world))
  refine hrefines.mono (fun request between _ ↦ by cases request <;> trivial) ?_
  intro outcome final hends hreturned hready
  subst hreturned
  obtain ⟨status, hreaches⟩ := hends
  have hmarked : final.memory.state.statusOf tp = some status := (hreaches.marked trivial).1
  obtain rfl : status = .ready := Option.some.inj (hmarked.symm.trans hready)
  obtain ⟨leo, harrived⟩ : ∃ leo, Arrived job final leo :=
    hreaches.invariant (Aligned job) (aligned_step hfrozen) hmemory
  have hend := harrived.atLogEnd
  refine ⟨hend, ?_⟩
  have hrests : Rests tp name final final := ⟨⟨rfl, rfl⟩, hend.2.2.1⟩
  have hassigned (revoked : World) (hstays : Rests tp name final revoked) :
      Holds (environment settings conditions)
        (AtCall fun call between ↦ ReadsNothing call ∧ Unchanged tp final between)
        (fun _ ↦ Rests tp name final) (onPartitionsAssigned settings rounds [tp]) revoked := by
    refine holds_onPartitionsAssigned _ (fun deadline other hother first between hbetween ↦
      ?_) hstays
    obtain rfl := List.mem_singleton.mp hother
    exact holds_assignOne_at_end hfrozen hname hbetween
  have hrevoked : Holds (environment settings conditions)
      (AtCall fun call between ↦ ReadsNothing call ∧ Unchanged tp final between)
      (fun _ ↦ Rests tp name final) (onPartitionsRevoked [tp]) final := by
    refine holds_onPartitionsRevoked _ (fun other hother between hbetween ↦ ?_) hrests
    obtain rfl := List.mem_singleton.mp hother
    exact holds_revokeOne_at_end hfrozen hbetween
  refine hrevoked.bind (fun _ revoked hstays ↦ ?_) (fun _ _ hstays ↦ hstays.1)
    fun _ hstays ↦ hstays.1
  exact (hassigned revoked hstays).mono (fun _ _ hmoment ↦ hmoment) fun _ _ hafter ↦ hafter.1

/-- A store that applied the first of two records, while any call may fail. -/
theorem ready_is_fixpoint_sample :
    Holds (environment Sample.settings Sample.failing) (AtCall fun _ _ ↦ True)
      (fun outcome final ↦ outcome = .returned () →
        final.memory.state.statusOf Sample.orders = some .ready →
        AtLogEnd Sample.orders Sample.changelog final ∧
          StaysWhenReassigned Sample.settings Sample.failing Sample.orders 9 final)
      (rehydrateOne Sample.settings 9 Sample.orders Sample.changelog 30) Sample.halfApplied := by
  exact ready_is_fixpoint (fun _ _ hdisturb ↦ hdisturb) (by decide) (Or.inl rfl)

end KSQLite.Rehydrate
