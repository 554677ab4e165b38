import KSQLite.Rehydrate.Folding

/-!
# A record that replay cannot read

A record with a valid message id and a missing or unknown format version is refused by every batch
that contains it (`not_run_of_unreadable`). While the changelog holds such a record, a rehydrate
that starts at or below its offset does not get past it: the checkpoint stays below, no row at or
past the offset is inserted, and a partition that is revealed as `READY` has its captured log end
at or below (`blocking_step`).
-/

set_option autoImplicit false
set_option relaxedAutoImplicit false

namespace KSQLite.Rehydrate

open KSQLite.Log KSQLite.Suspension KSQLite.Store

/-- A record with a valid message id whose format version is missing or a different one. -/
def Unreadable (message : Message) : Prop :=
  (∃ bytes messageId, headerOf message.headers "message_id" = some bytes ∧
    String.fromUTF8? bytes = some messageId ∧ isUUID messageId = true) ∧
  headerOf message.headers "format_version" ≠ some formatVersion.toUTF8

/-- Such a record is classified as one of an unknown version, whatever its key and value. -/
theorem Unreadable.classify_eq {message : Message} (hunreadable : Unreadable message) :
    ∃ messageId version, classify message = .unknownVersion messageId version := by
  obtain ⟨⟨bytes, messageId, hheader, hdecoded, huuid⟩, hversion⟩ := hunreadable
  have hvalid : (String.fromUTF8? bytes).filter isUUID = some messageId := by
    rw [hdecoded, Option.filter_some, if_pos huuid]
  unfold classify
  simp only [hheader, hvalid]
  cases hfound : headerOf message.headers "format_version" with
  | none => exact ⟨messageId, none, rfl⟩
  | some version =>
    have hdifferent : version ≠ formatVersion.toUTF8 := fun hsame ↦ hversion (hsame ▸ hfound)
    exact ⟨messageId, some version, if_pos hdifferent⟩

/-- A batch with an unreadable record does not commit. -/
theorem not_run_of_unreadable {json : String → Option String} {tp : TopicPartition}
    {records : List (ℤ × Message)} {batchMaxOffset : ℤ} {database committed : Database}
    {entry : ℤ × Message} (hentry : entry ∈ records) (hunreadable : Unreadable entry.2) :
    (Work.materializeBatch tp records batchMaxOffset).run json database ≠ .ok committed := by
  intro hrun
  obtain ⟨messageId, version, hclassify⟩ := hunreadable.classify_eq
  obtain ⟨hreplayable, _⟩ := run_materializeBatch_eq_ok.mp hrun
  rcases hreplayable entry hentry with ⟨reason, hforeign⟩ | ⟨record, hrecord, _⟩
  · rw [hclassify] at hforeign
    cases hforeign
  · rw [hclassify] at hrecord
    cases hrecord

/-- The checkpoint of a partition is below an offset, and the rows of the partition at or past it
are among the given ones. -/
structure HeldBelow (rows : List Row) (tp : TopicPartition) (offset : ℤ) (database : Database) :
    Prop where
  checkpoint : ∀ stored ∈ database.checkpoint tp, stored < offset
  rows : ∀ row ∈ database.rowsOf tp, offset ≤ row.changelogOffset → row ∈ rows

/-- The log end was captured; the position and that of the consumer are at or below an offset. -/
def Approaches (job : Job) (offset : ℤ) (world : World) (leo position : ℤ) : Prop :=
  world.memory.state.logEndOf job.tp = some leo ∧ position ≤ offset ∧
    ∀ fetch, world.memory.fetchPosition job.name = some fetch → fetch ≤ offset

/-- The captured log end is at or below an offset. -/
def EndsAtMost (job : Job) (offset : ℤ) (world : World) (leo : ℤ) : Prop :=
  world.memory.state.logEndOf job.tp = some leo ∧ leo ≤ offset

/-- What holds at each point before an unreadable record. -/
def PointBlocking (job : Job) (offset : ℤ) (message : Message) : Point → World → Prop
  | .seeded checkpoint, _ | .connected checkpoint, _ => ∀ stored ∈ checkpoint, stored < offset
  | .opened checkpoint leo, world =>
    world.memory.state.logEndOf job.tp = some leo ∧ ∀ stored ∈ checkpoint, stored < offset
  | .polling leo _ replay, world | .deciding leo _ replay, world =>
    Approaches job offset world leo replay.position
  | .resetting leo _ _, world => world.memory.state.logEndOf job.tp = some leo
  | .seeking leo _ replay, world =>
    world.memory.state.logEndOf job.tp = some leo ∧ replay.position ≤ offset
  | .materializing leo _ _ records last, world =>
    world.memory.state.logEndOf job.tp = some leo ∧ FetchesFrom job.name world (last.1 + 1) ∧
      (∀ entry ∈ records, entry.1 ≤ last.1) ∧ (last.1 < offset ∨ (offset, message) ∈ records)
  | .clamping leo _, world => EndsAtMost job offset world leo
  | .clampingTo leo target, world => EndsAtMost job offset world leo ∧ target = leo - 1
  | .revealing .ready, world | .revealed .ready, world => ∃ leo, EndsAtMost job offset world leo
  | _, _ => True

/-- The invariant of the machine before an unreadable record. -/
structure Blocking (rows : List Row) (offset : ℤ) (message : Message) (job : Job) (point : Point)
    (world : World) : Prop where
  stored : (offset, message) ∈ (job.log world).entries
  held : HeldBelow rows job.tp offset world.database
  point : PointBlocking job offset message point world

section Blocks

variable {rows : List Row} {offset : ℤ} {message : Message} {job : Job} {world next : World}

/-- A batch that ends below an offset keeps a partition below it. -/
theorem HeldBelow.run {json : String → Option String} {tp : TopicPartition}
    {records : List (ℤ × Message)} {last : ℤ × Message} {database committed : Database}
    (hheld : HeldBelow rows tp offset database) (hrecords : ∀ entry ∈ records, entry.1 ≤ last.1)
    (hlast : last.1 < offset)
    (hrun : (Work.materializeBatch tp records last.1).run json database = .ok committed) :
    HeldBelow rows tp offset committed := by
  constructor
  · intro stored hstored
    rw [checkpoint_of_run hrun] at hstored
    obtain rfl := Option.some.inj hstored
    cases hcheckpoint : database.checkpoint tp with
    | none => exact hlast
    | some checkpoint =>
      rw [PartitionStateMachine.maxOffset_some]
      exact max_lt (hheld.checkpoint checkpoint hcheckpoint) hlast
  · intro row hrow hoffset
    obtain ⟨hrecord, hsource⟩ := Database.mem_rowsOf.mp hrow
    obtain ⟨_, rfl⟩ := run_materializeBatch_eq_ok.mp hrun
    change row ∈ (Database.insertRows _ _).records at hrecord
    rw [Database.insertRows_records] at hrecord
    rcases mem_insertAll hrecord with hold | hnew
    · exact hheld.rows row (Database.mem_rowsOf.mpr ⟨hold, hsource⟩) hoffset
    · obtain ⟨entry, hentry, hrowOf⟩ := List.mem_filterMap.mp hnew
      obtain ⟨_, _, _, _, rfl⟩ := rowOf_eq_some.mp hrowOf
      have := hrecords entry hentry
      exact absurd hoffset (not_le.mpr (this.trans_lt hlast))

/-- What leaves a partition alone keeps it below an offset. -/
theorem HeldBelow.leavesAlone {tp : TopicPartition} {before after : Database}
    (hheld : HeldBelow rows tp offset before) (halone : LeavesAlone tp before after) :
    HeldBelow rows tp offset after := by
  refine ⟨?_, ?_⟩
  · rw [halone.checkpoint]
    exact hheld.checkpoint
  · rw [halone.rows]
    exact hheld.rows

/-- The position of an unreadable record is not negative, and not below the start of the log. -/
theorem Blocking.start_le {point : Point}
    (hblocking : Blocking rows offset message job point world) :
    (job.log world).start ≤ offset :=
  ((job.log world).bounded _ hblocking.stored).1

/-- What a pending transaction commits keeps the partition below the offset. -/
theorem Blocking.commit (hunreadable : Unreadable message) {point : Point}
    (hblocking : Blocking rows offset message job point world) {work : Work} {committed : Database}
    (hawaits : Awaits job.settings job.tp job.name point (.transaction work))
    (hrun : work.run job.settings.json world.database = .ok committed) :
    HeldBelow rows job.tp offset committed := by
  obtain ⟨_, hheld, hpoint⟩ := hblocking
  cases hawaits with
  | materialize =>
    obtain ⟨_, _, hrecords, hlast | hmem⟩ := hpoint
    · exact hheld.run hrecords hlast hrun
    · exact absurd hrun (not_run_of_unreadable hmem hunreadable)
  | clamp =>
    obtain ⟨⟨_, hleo⟩, rfl⟩ := hpoint
    cases hrun
    refine ⟨fun stored hstored ↦ ?_, hheld.rows⟩
    obtain rfl := Option.some.inj (hstored.symm.trans Database.setCheckpoint_checkpoint_self)
    omega
  | reveal =>
    cases hrun
    exact ⟨hheld.checkpoint, hheld.rows⟩

/-- The consumer moved to a position at or below the offset. -/
theorem approaches_seek {leo position fetch : ℤ}
    (hleo : world.memory.state.logEndOf job.tp = some leo) (hposition : position ≤ offset)
    (hfetch : fetch ≤ offset) : Approaches job offset (world.seek fetch) leo position := by
  refine ⟨hleo, hposition, fun found hfound ↦ ?_⟩
  rw [Memory.fetchPosition_seek hfound]
  exact hfetch

/-- Every step of the machine keeps the partition before the unreadable record.
Assumes: others only append to the changelog. -/
theorem blocking_step (hunreadable : Unreadable message)
    (happends : AppendsOnly job.conditions job.name) {point after : Point}
    (hstep : Step job (point, world) (after, next))
    (hblocking : Blocking rows offset message job point world) :
    Blocking rows offset message job after next := by
  have hstart := hblocking.start_le
  have hnonneg := (job.log world).start_nonneg
  have hstored := hblocking.stored
  have hpoint := hblocking.point
  refine ⟨?_, ?_, ?_⟩
  · rcases changelogs_step hstep with hsame | hdisturb
    · unfold Job.log
      rw [hsame]
      exact hstored
    · exact OffsetLog.Grows.mem (happends _ _ hdisturb) hstored
  · cases hstep with
    | seed =>
      rw [World.seed_database]
      exact hblocking.held
    | idle _ hnothing =>
      obtain ⟨idlePolls, rfl⟩ := hnothing.exists_idlePolls
      exact hblocking.held
    | fetch _ _ hfetches _ =>
      obtain ⟨_, _, _, _, _, _, rfl⟩ := hfetches
      exact hblocking.held
    | materialize _ hrun => exact hblocking.commit hunreadable .materialize hrun
    | clamp => exact hblocking.commit hunreadable .clamp rfl
    | reveal => exact hblocking.commit hunreadable .reveal rfl
    | seedUnreached =>
      rw [World.onState_database, World.seed_database]
      exact hblocking.held
    | _ => exact hblocking.held
  · cases hstep with
    | drift _ _ =>
      cases point with
      | revealing status | revealed status => cases status <;> exact hpoint
      | _ => exact hpoint
    | seed => exact hblocking.held.checkpoint
    | keepConsumer | connect _ => exact hpoint
    | capture _ => exact ⟨World.capture_logEndOf, hpoint⟩
    | openCold => exact approaches_seek hpoint.1 (hnonneg.trans hstart) hstart
    | @openWarm checkpoint leo world hcheckpoint =>
      have hbelow : checkpoint + 1 ≤ offset := hpoint.2 checkpoint rfl
      exact approaches_seek hpoint.1 hbelow hbelow
    | idle _ hnothing =>
      obtain ⟨idlePolls, rfl⟩ := hnothing.exists_idlePolls
      exact hpoint
    | lose _ _ => exact hpoint.1
    | readStart => exact ⟨hpoint, hstart⟩
    | reset => exact approaches_seek hpoint.1 hpoint.2 hstart
    | @fetch leo fuel replay world records last next _ _ hfetches hlast =>
      obtain ⟨fetch, found, hfetch, _, hbatch, hfound, rfl⟩ := hfetches
      obtain rfl := Option.some.inj (hlast.symm.trans hfound)
      refine ⟨hpoint.1, FetchesFrom.seek _, fun entry hentry ↦ hbatch.le_last hlast hentry, ?_⟩
      by_cases hbelow : last.1 < offset
      · exact Or.inl hbelow
      · exact Or.inr (hbatch.covers hlast hstored (hpoint.2.2 fetch hfetch) (not_lt.mp hbelow))
    | @materialize leo fuel replay records last world database hlast hrun =>
      obtain ⟨hleo, hfrom, _, hbelow | hmem⟩ := hpoint
      · refine ⟨(PartitionStateMachine.logEndOf_recordApplied _).trans hleo, hbelow, ?_⟩
        intro fetch hfetch
        rw [hfrom fetch hfetch]
        exact hbelow
      · exact absurd hrun (not_run_of_unreadable hmem hunreadable)
    | goOn => exact hpoint
    | leave hposition _ =>
      exact ⟨_, (PartitionStateMachine.logEndOf_mark _).trans hpoint.1, hposition ▸ hpoint.2.1⟩
    | leaveReset hposition _ => exact ⟨hpoint.1, hposition ▸ hpoint.2.1⟩
    | keep _ => exact ⟨_, (PartitionStateMachine.logEndOf_mark _).trans hpoint.1, hpoint.2⟩
    | aim htarget => exact ⟨hpoint, clampTarget_eq htarget⟩
    | @clamp leo target world =>
      refine ⟨leo, ?_, hpoint.1.2⟩
      have hclamped : (world.memory.state.recordClamped job.tp target).logEndOf job.tp = some leo :=
        (PartitionStateMachine.logEndOf_recordClamped _).trans hpoint.1.1
      exact (PartitionStateMachine.logEndOf_mark _).trans hclamped
    | @reveal status world => cases status <;> exact hpoint
    | _ => trivial

end Blocks

end KSQLite.Rehydrate
