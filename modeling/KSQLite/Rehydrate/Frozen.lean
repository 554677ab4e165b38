import KSQLite.Rehydrate.Coverage
import KSQLite.Rehydrate.Frame

/-!
# An uninterrupted rehydrate of a frozen log

What a rehydrate leaves in `_records` when nobody touches the changelog and no call fails. From a
checkpoint inside the log it reads from the next offset on; from a checkpoint past its end it is
told that it is out of range and reads from the start (`Lower`). At `READY` the message ids are
the old ones and those of the entries from there to the end (`Scanning.holding`), no more and no
less.
-/

set_option autoImplicit false
set_option relaxedAutoImplicit false

namespace KSQLite.Rehydrate

open KSQLite.Log KSQLite.Suspension KSQLite.Store

/-- A replay that starts past a checkpoint reads from the next offset, or from the start of a log
that ends before it. -/
def Lower (log : OffsetLog Message) (checkpoint lower : ℤ) : Prop :=
  log.InRange (checkpoint + 1) ∧ lower = checkpoint + 1 ∨
    log.stop < checkpoint + 1 ∧ lower = log.start

/-- The message ids of a database are those of another one and those of the entries between two
offsets. -/
def Holding (base database : Database) (log : OffsetLog Message) (lower upper : ℤ) : Prop :=
  ∀ messageId, messageId ∈ database.records.map Row.messageId ↔
    messageId ∈ base.records.map Row.messageId ∨
      ∃ entry ∈ log.entries, lower ≤ entry.1 ∧ entry.1 < upper ∧
        messageIdOf entry = some messageId

/-- The consumer fetches from a position, if it has one. -/
def FetchesFrom (name : String) (world : World) (position : ℤ) : Prop :=
  ∀ fetch, world.memory.fetchPosition name = some fetch → fetch = position

/-- In the loop: everything between the lower offset and the position was read, or the consumer
stands past the end of the log and nothing was. -/
def Scan (job : Job) (base : Database) (checkpoint : ℤ) (world : World) (leo position : ℤ) :
    Prop :=
  world.memory.state.logEndOf job.tp = some leo ∧ leo = (job.log world).stop ∧
    FetchesFrom job.name world position ∧
    ((∃ lower, Lower (job.log world) checkpoint lower ∧ lower ≤ position ∧ position ≤ leo ∧
        Holding base world.database (job.log world) lower position) ∨
      (job.log world).stop < checkpoint + 1 ∧ position = checkpoint + 1 ∧
        world.database.records = base.records)

/-- The log end was captured, the consumer is out of range, and nothing was read. -/
def Unread (job : Job) (base : Database) (checkpoint : ℤ) (world : World) (leo : ℤ) : Prop :=
  world.memory.state.logEndOf job.tp = some leo ∧ leo = (job.log world).stop ∧
    (job.log world).stop < checkpoint + 1 ∧ world.database.records = base.records

/-- The whole log was read. -/
def Scanned (job : Job) (base : Database) (checkpoint : ℤ) (world : World) (leo : ℤ) : Prop :=
  world.memory.state.logEndOf job.tp = some leo ∧ leo = (job.log world).stop ∧
    ∃ lower, Lower (job.log world) checkpoint lower ∧
      Holding base world.database (job.log world) lower leo

/-- What holds at each point of an uninterrupted rehydrate from a checkpoint. -/
def Scanning (job : Job) (base : Database) (checkpoint : ℤ) : Point → World → Prop
  | .entered, world =>
    world.database.checkpoint job.tp = some checkpoint ∧ world.database.records = base.records ∧
      (job.log world).start ≤ checkpoint + 1
  | .seeded stored, world | .connected stored, world =>
    stored = some checkpoint ∧ world.database.records = base.records ∧
      (job.log world).start ≤ checkpoint + 1
  | .opened stored leo, world =>
    stored = some checkpoint ∧ world.database.records = base.records ∧
      (job.log world).start ≤ checkpoint + 1 ∧
      world.memory.state.logEndOf job.tp = some leo ∧ leo = (job.log world).stop
  | .polling leo _ replay, world | .deciding leo _ replay, world =>
    Scan job base checkpoint world leo replay.position
  | .resetting leo _ _, world => Unread job base checkpoint world leo
  | .seeking leo _ replay, world =>
    Unread job base checkpoint world leo ∧ replay.position = (job.log world).start
  | .materializing leo _ _ records last, world =>
    world.memory.state.logEndOf job.tp = some leo ∧ leo = (job.log world).stop ∧
      FetchesFrom job.name world (last.1 + 1) ∧ last.1 + 1 ≤ leo ∧
      ∃ lower position, Lower (job.log world) checkpoint lower ∧ lower ≤ position ∧
        (job.log world).IsBatch position job.settings.batchSize records ∧
        Holding base world.database (job.log world) lower position
  | .clamping leo _, world | .clampingTo leo _, world => Scanned job base checkpoint world leo
  | .revealing .ready, world | .revealed .ready, world =>
    ∃ leo, Scanned job base checkpoint world leo
  | .revealing _, _ | .revealed _, _ => True
  | .checking, _ | .unreached, _ | .captured, _ => False

/-! ### What was read -/

section Reading

variable {base database committed : Database} {log : OffsetLog Message} {lower position : ℤ}

/-- Nothing lies between an offset and itself. -/
theorem holding_refl (hrecords : database.records = base.records) :
    Holding base database log lower lower := by
  intro messageId
  rw [hrecords]
  refine (or_iff_left ?_).symm
  rintro ⟨entry, _, hle, hlt, _⟩
  omega

/-- A committed batch that was fetched from a position takes it to the end of the batch. -/
theorem Holding.advance {json : String → Option String} {tp : TopicPartition} {limit : ℕ}
    {records : List (ℤ × Message)} {last : ℤ × Message}
    (hholding : Holding base database log lower position) (hlower : lower ≤ position)
    (hbatch : log.IsBatch position limit records) (hlast : records.getLast? = some last)
    (hrun : (Work.materializeBatch tp records last.1).run json database = .ok committed) :
    Holding base committed log lower (last.1 + 1) := by
  intro messageId
  rw [mem_messageIds_of_run hrun, hholding messageId, or_assoc]
  refine or_congr_right ⟨?_, ?_⟩
  · rintro (⟨entry, hentry, hle, hlt, hid⟩ | ⟨entry, hentry, hid⟩)
    · have hend := (hbatch.last_mem hlast).2
      exact ⟨entry, hentry, hle, by omega, hid⟩
    · have hmem := hbatch.mem hentry
      have hend := hbatch.le_last hlast hentry
      exact ⟨entry, hmem.1, by omega, by omega, hid⟩
  · rintro ⟨entry, hentry, hle, hlt, hid⟩
    by_cases hposition : entry.1 < position
    · exact Or.inl ⟨entry, hentry, hle, hposition, hid⟩
    · exact Or.inr ⟨entry, hbatch.covers hlast hentry (by omega) (by omega), hid⟩

theorem FetchesFrom.seek {name : String} {world : World} (offset : ℤ) :
    FetchesFrom name (world.seek offset) offset :=
  fun _ hfetch ↦ Memory.fetchPosition_seek hfetch

end Reading

/-! ### Steps -/

section Steps

variable {job : Job} {base : Database} {checkpoint leo : ℤ} {world next : World}

/-- A consumer placed after a checkpoint stands in the log, or past its end. -/
theorem Scan.open_warm (hrecords : world.database.records = base.records)
    (hstart : (job.log world).start ≤ checkpoint + 1)
    (hcaptured : world.memory.state.logEndOf job.tp = some leo)
    (hleo : leo = (job.log world).stop) :
    Scan job base checkpoint (world.seek (checkpoint + 1)) leo (checkpoint + 1) := by
  refine ⟨hcaptured, hleo, FetchesFrom.seek _, ?_⟩
  by_cases hend : checkpoint + 1 ≤ (job.log world).stop
  · refine Or.inl ⟨_, Or.inl ⟨⟨hstart, hend⟩, rfl⟩, le_refl _, hleo ▸ hend, ?_⟩
    exact holding_refl hrecords
  · exact Or.inr ⟨not_le.mp hend, rfl, hrecords⟩

/-- Only a consumer past the end of the log is told that it is out of range. -/
theorem Scan.lose {position : ℤ} (huninterrupted : Uninterrupted job.conditions)
    (hscan : Scan job base checkpoint world leo position)
    (hraises : Raises job.settings job.conditions world (.getmany job.name job.settings.batchSize)
      (.kafka .offsetOutOfRange)) : Unread job base checkpoint world leo := by
  obtain ⟨hcaptured, hleo, hfetches, hread⟩ := hscan
  obtain ⟨_, fetch, hfetch, hout⟩ := hraises.resolve_left (huninterrupted.succeeds _ _)
  obtain rfl := hfetches fetch hfetch
  rcases hread with ⟨lower, hlower, hle, hend, _⟩ | ⟨hpast, _, hrecords⟩
  · refine absurd ⟨?_, hleo ▸ hend⟩ hout
    rcases hlower with ⟨hrange, rfl⟩ | ⟨_, rfl⟩
    · exact hrange.1.trans hle
    · exact hle
  · exact ⟨hcaptured, hleo, hpast, hrecords⟩

/-- At the start of the log nothing was read yet. -/
theorem Unread.seek_start (hunread : Unread job base checkpoint world leo) :
    Scan job base checkpoint (world.seek (job.log world).start) leo (job.log world).start := by
  obtain ⟨hcaptured, hleo, hpast, hrecords⟩ := hunread
  refine ⟨hcaptured, hleo, FetchesFrom.seek _, Or.inl ⟨_, Or.inr ⟨hpast, rfl⟩, le_refl _, ?_, ?_⟩⟩
  · rw [hleo]
    exact (job.log world).start_le_stop
  · exact holding_refl hrecords

/-- A fetch reads on from the position. -/
theorem Scan.fetch {position : ℤ} {rounds : ℕ} {replay : Replay} {records : List (ℤ × Message)}
    {last : ℤ × Message} (hscan : Scan job base checkpoint world leo position)
    (hfetches : Fetches world job.name job.settings.batchSize records next)
    (hlast : records.getLast? = some last) :
    Scanning job base checkpoint (.materializing leo rounds replay records last) next := by
  obtain ⟨fetch, end', hfetch, hrange, hbatch, hend, rfl⟩ := hfetches
  obtain rfl : last = end' := Option.some.inj (hlast.symm.trans hend)
  obtain ⟨hcaptured, hleo, hfrom, hread⟩ := hscan
  obtain rfl := hfrom fetch hfetch
  have hbound : last.1 + 1 ≤ leo := hleo ▸ hbatch.last_lt_stop hlast
  refine ⟨hcaptured, hleo, FetchesFrom.seek _, hbound, ?_⟩
  rcases hread with ⟨lower, hlower, hle, _, hholding⟩ | ⟨hpast, hposition, _⟩
  · exact ⟨lower, fetch, hlower, hle, hbatch, hholding⟩
  · have hstop : fetch ≤ (job.log world).stop := hrange.2
    omega

/-- A position at the captured log end: the whole log was read. -/
theorem Scan.scanned {position : ℤ} (hscan : Scan job base checkpoint world leo position)
    (hposition : position = leo) : Scanned job base checkpoint world leo := by
  obtain ⟨hcaptured, hleo, _, ⟨lower, hlower, _, _, hholding⟩ | ⟨hpast, hfar, _⟩⟩ := hscan
  · exact ⟨hcaptured, hleo, lower, hlower, hposition ▸ hholding⟩
  · omega

theorem Scanned.onState {update : PartitionStateMachine → PartitionStateMachine}
    (hscanned : Scanned job base checkpoint world leo)
    (hupdate : (update world.memory.state).logEndOf job.tp = world.memory.state.logEndOf job.tp) :
    Scanned job base checkpoint (world.onState update) leo :=
  ⟨hupdate.trans hscanned.1, hscanned.2⟩

/-- Every step of an uninterrupted rehydrate keeps the invariant. -/
theorem scanning_step (huninterrupted : Uninterrupted job.conditions) {point after : Point}
    (hstep : Step job (point, world) (after, next))
    (hpoint : Scanning job base checkpoint point world) :
    Scanning job base checkpoint after next := by
  cases hstep with
  | drift _ hdisturb => exact absurd hdisturb (huninterrupted.frozen _ _)
  | createTopic => exact hpoint.elim
  | check => exact hpoint.elim
  | enter => exact hpoint.elim
  | skip _ => exact hpoint.elim
  | seed =>
    refine ⟨hpoint.1, by rw [World.seed_database]; exact hpoint.2.1, ?_⟩
    unfold Job.log
    rw [World.seed_broker]
    exact hpoint.2.2
  | keepConsumer => exact hpoint
  | connect _ => exact hpoint
  | capture hleo => exact ⟨hpoint.1, hpoint.2.1, hpoint.2.2, World.capture_logEndOf, hleo⟩
  | openCold => exact absurd hpoint.1 (by simp)
  | openWarm _ =>
    obtain ⟨hstored, hrecords, hstart, hcaptured, hleo⟩ := hpoint
    cases hstored
    exact .open_warm hrecords hstart hcaptured hleo
  | idle _ hnothing =>
    obtain ⟨idlePolls, rfl⟩ := hnothing.exists_idlePolls
    exact hpoint
  | lose _ hraises => exact hpoint.lose huninterrupted hraises
  | readStart => exact ⟨hpoint, rfl⟩
  | reset =>
    obtain ⟨hunread, hposition⟩ := hpoint
    change Scan job base checkpoint _ _ _
    rw [hposition]
    exact hunread.seek_start
  | fetch _ _ hfetches hlast => exact hpoint.fetch hfetches hlast
  | materialize hlast hrun =>
    obtain ⟨hcaptured, hleo, hfrom, hend, lower, position, hlower, hle, hbatch, hholding⟩ := hpoint
    refine ⟨by simpa using hcaptured, hleo, hfrom, Or.inl ⟨lower, hlower, ?_, hend, ?_⟩⟩
    · have hposition := (hbatch.last_mem hlast).2
      exact hle.trans (hposition.trans (Int.lt_add_one_of_le le_rfl).le)
    · exact hholding.advance hle hbatch hlast hrun
  | goOn => exact hpoint
  | expire _ _ => trivial
  | leave hposition _ => exact ⟨_, (hpoint.scanned hposition).onState (by
      simp [PartitionStateMachine.markReady])⟩
  | leaveReset hposition _ => exact hpoint.scanned hposition
  | keep _ => exact ⟨_, hpoint.onState (by simp [PartitionStateMachine.markReady])⟩
  | aim _ => exact hpoint
  | clamp =>
    obtain ⟨hcaptured, hleo, lower, hlower, hholding⟩ := hpoint
    refine ⟨_, ?_, hleo, lower, hlower, hholding⟩
    simpa [PartitionStateMachine.markReady] using hcaptured
  | @reveal status world =>
    cases status with
    | ready => exact hpoint
    | _ => trivial
  | keepUnreached => exact hpoint.elim
  | captureUnreached _ => exact hpoint.elim
  | seedUnreached => exact hpoint.elim

end Steps

end KSQLite.Rehydrate
