import KSQLite.Rehydrate.Frozen
import KSQLite.Rehydrate.GrowingLog

/-!
# The rows as a fold of the log

On a changelog that is never trimmed the rows of its partition are the log up to the checkpoint,
inserted record by record into an empty table (`replayed`). A batch that commits goes on with the
fold, wherever it starts at or below the next offset to replay: what it repeats is already there
(`rowsOf_of_run`). Every step of the machine keeps the rows that fold (`folding_step`).

Each message id belongs to one partition, its owner, so the rows of other partitions take no
message id away (`Attributed`).
-/

set_option autoImplicit false
set_option relaxedAutoImplicit false

namespace KSQLite.Rehydrate

open KSQLite.Log KSQLite.Suspension KSQLite.Store

/-- The rows of a partition after the replay of its changelog up to a bound. -/
def replayed (json : String → Option String) (tp : TopicPartition) (log : OffsetLog Message)
    (bound : ℤ) : List Row :=
  insertAll Row.messageId [] ((log.below bound).filterMap (rowOf json tp))

/-- An entry carries no message id of another partition. -/
def BelongsTo (owner : String → TopicPartition) (tp : TopicPartition) (entry : ℤ × Message) :
    Prop :=
  ∀ messageId, messageIdOf entry = some messageId → owner messageId = tp

/-- Each changelog carries message ids of its partition only. -/
def Attributed (owner : String → TopicPartition) (settings : Settings) (broker : Broker) : Prop :=
  ∀ tp, ∀ entry ∈ (broker.changelogs (settings.template tp)).entries, BelongsTo owner tp entry

/-! ### One batch -/

section Batch

variable {json : String → Option String} {tp : TopicPartition} {log : OffsetLog Message}
  {position bound : ℤ} {limit : ℕ} {records : List (ℤ × Message)} {last : ℤ × Message}

/-- Inserting a batch that was fetched at or below a bound goes on with the fold. -/
theorem insertAll_replayed (hbatch : log.IsBatch position limit records)
    (hlast : records.getLast? = some last) (hposition : position ≤ bound) :
    insertAll Row.messageId (replayed json tp log bound) (records.filterMap (rowOf json tp)) =
      replayed json tp log (max bound (last.1 + 1)) := by
  let known := records.filter fun entry ↦ entry.1 < bound
  let fresh := records.filter fun entry ↦ bound ≤ entry.1
  have hsplit : known ++ fresh = records :=
    OffsetLog.filter_lt_append ((log.available_sorted position).sublist hbatch.2.2.sublist) bound
  have hknown : insertAll Row.messageId (replayed json tp log bound)
      (known.filterMap (rowOf json tp)) = replayed json tp log bound := by
    refine insertAll_eq_self fun row hrow ↦ ?_
    obtain ⟨entry, hentry, hrowOf⟩ := List.mem_filterMap.mp hrow
    obtain ⟨hmem, hlt⟩ := List.mem_filter.mp hentry
    have hbelow : entry ∈ log.below bound :=
      OffsetLog.mem_below.mpr ⟨(hbatch.mem hmem).1, of_decide_eq_true hlt⟩
    refine mem_keys_insertAll.mpr (Or.inr (List.mem_map_of_mem ?_))
    exact List.mem_filterMap.mpr ⟨entry, hbelow, hrowOf⟩
  have hlog : log.below (max bound (last.1 + 1)) = log.below bound ++ fresh := by
    by_cases hbound : bound ≤ last.1 + 1
    · rw [max_eq_right hbound]
      exact hbatch.below_append hlast hposition hbound
    · have hnone : fresh = [] := by
        refine List.filter_eq_nil_iff.mpr fun entry hentry ↦ ?_
        have := hbatch.le_last hlast hentry
        simp only [decide_eq_true_eq]
        omega
      rw [max_eq_left (not_le.mp hbound).le, hnone, List.append_nil]
  rw [← hsplit, List.filterMap_append, insertAll_append, hknown]
  unfold replayed
  rw [hlog, List.filterMap_append, insertAll_append]

/-- The rows after a batch that was fetched at or below the next offset to replay and committed.
Assumes: no row of another partition has a message id of the batch. -/
theorem rowsOf_of_run {database committed : Database}
    (hrows : database.rowsOf tp =
      replayed json tp log (PartitionStateMachine.nextOffset (database.checkpoint tp)))
    (hapart : ∀ entry ∈ records, ∀ row ∈ database.records,
      messageIdOf entry = some row.messageId → row.source = tp)
    (hbatch : log.IsBatch position limit records) (hlast : records.getLast? = some last)
    (hposition : position ≤ PartitionStateMachine.nextOffset (database.checkpoint tp))
    (hrun : (Work.materializeBatch tp records last.1).run json database = .ok committed) :
    committed.rowsOf tp =
      replayed json tp log (PartitionStateMachine.nextOffset (committed.checkpoint tp)) := by
  have hoffset : 0 ≤ last.1 :=
    log.start_nonneg.trans (log.bounded last (hbatch.last_mem hlast).1).1
  rw [checkpoint_of_run hrun, PartitionStateMachine.nextOffset_maxOffset_eq _ hoffset,
    ← insertAll_replayed hbatch hlast hposition, ← hrows]
  obtain ⟨_, rfl⟩ := run_materializeBatch_eq_ok.mp hrun
  change (Database.insertRows _ _).records.filter _ = _
  rw [Database.insertRows_records]
  refine filter_insertAll (fun row hrow ↦ ?_) fun row hrow old hold hid ↦ ?_
  · obtain ⟨entry, _, hrowOf⟩ := List.mem_filterMap.mp hrow
    exact decide_eq_true (source_of_rowOf hrowOf)
  · obtain ⟨entry, hentry, hrowOf⟩ := List.mem_filterMap.mp hrow
    refine decide_eq_true (hapart entry hentry old hold ?_)
    rw [hid]
    exact messageIdOf_of_rowOf hrowOf

end Batch

/-! ### Owners -/

section Owners

variable {owner : String → TopicPartition} {job : Job} {world next : World}

/-- Every row has a message id of its partition. -/
def RowsOwned (owner : String → TopicPartition) (database : Database) : Prop :=
  ∀ row ∈ database.records, owner row.messageId = row.source

/-- Message ids stay with their owners: in the changelogs, in the rows, and in a fetched batch. -/
structure Owned (owner : String → TopicPartition) (job : Job) (point : Point) (world : World) :
    Prop where
  attributed : Attributed owner job.settings world.broker
  rows : RowsOwned owner world.database
  fetched : ∀ leo fuel replay records last,
    point = .materializing leo fuel replay records last → ∀ entry ∈ records,
      BelongsTo owner job.tp entry

/-- A batch that committed gives its message ids to its partition. -/
theorem RowsOwned.run {json : String → Option String} {tp : TopicPartition}
    {records : List (ℤ × Message)} {offset : ℤ} {database committed : Database}
    (hrows : RowsOwned owner database) (hrecords : ∀ entry ∈ records, BelongsTo owner tp entry)
    (hrun : (Work.materializeBatch tp records offset).run json database = .ok committed) :
    RowsOwned owner committed := by
  obtain ⟨_, rfl⟩ := run_materializeBatch_eq_ok.mp hrun
  intro row hrow
  change row ∈ (Database.insertRows _ _).records at hrow
  rw [Database.insertRows_records] at hrow
  rcases mem_insertAll hrow with hold | hnew
  · exact hrows row hold
  · obtain ⟨entry, hentry, hrowOf⟩ := List.mem_filterMap.mp hnew
    rw [source_of_rowOf hrowOf]
    exact hrecords entry hentry _ (messageIdOf_of_rowOf hrowOf)

/-- Every step of the machine leaves message ids with their owners.
Assumes: the changelog of the job is that of its partition. -/
theorem owned_step (hname : job.settings.template job.tp = job.name)
    (hdisturbs : ∀ broker after, job.conditions.disturbs broker after →
      Attributed owner job.settings broker → Attributed owner job.settings after)
    {point after : Point} (hstep : Step job (point, world) (after, next))
    (howned : Owned owner job point world) : Owned owner job after next where
  attributed := by
    rcases changelogs_step hstep with hsame | hdisturb
    · unfold Attributed
      rw [hsame]
      exact howned.attributed
    · exact hdisturbs _ _ hdisturb howned.attributed
  rows := by
    rcases records_step hstep with hsame | ⟨leo, fuel, replay, records, last, hpoint, hrun⟩
    · unfold RowsOwned
      rw [hsame]
      exact howned.rows
    · exact howned.rows.run (howned.fetched _ _ _ _ _ hpoint) hrun
  fetched := by
    rintro leo fuel replay records last rfl entry hentry
    cases hstep with
    | drift _ _ => exact howned.fetched _ _ _ _ _ rfl entry hentry
    | fetch _ _ hfetches _ =>
      obtain ⟨_, _, _, _, hbatch, _, _⟩ := hfetches
      refine howned.attributed job.tp entry ?_
      rw [hname]
      exact (hbatch.mem hentry).1

end Owners

/-! ### The fold -/

/-- Others leave a changelog as it is. -/
def Static (conditions : Conditions) (name : String) : Prop :=
  ∀ broker next, conditions.disturbs broker next →
    next.changelogs name = broker.changelogs name

/-- A consumer is told that it is out of range only when it is. -/
def Genuine (conditions : Conditions) (name : String) : Prop :=
  ∀ limit, ¬ conditions.fails (.getmany name limit) (.kafka .offsetOutOfRange)

/-- The rows of a partition are the fold of its changelog up to its checkpoint. -/
structure Folded (json : String → Option String) (tp : TopicPartition) (log : OffsetLog Message)
    (database : Database) : Prop where
  untrimmed : log.start = 0
  rows : database.rowsOf tp =
    replayed json tp log (PartitionStateMachine.nextOffset (database.checkpoint tp))
  nonneg : 0 ≤ PartitionStateMachine.nextOffset (database.checkpoint tp)
  bound : PartitionStateMachine.nextOffset (database.checkpoint tp) ≤ log.stop

/-- In the loop: the position and that of the consumer are not past the next offset to replay, and
a reset happens only to a changelog that is left as it is. -/
def Trails (job : Job) (world : World) (leo : ℤ) (replay : Replay) : Prop :=
  (Static job.conditions job.name → leo = (job.log world).stop) ∧
    (replay.resetOccurred = true → Static job.conditions job.name) ∧
    replay.position ≤ PartitionStateMachine.nextOffset (world.database.checkpoint job.tp) ∧
    ∀ fetch, world.memory.fetchPosition job.name = some fetch →
      0 ≤ fetch ∧ fetch ≤ PartitionStateMachine.nextOffset (world.database.checkpoint job.tp)

/-- The changelog is left as it is, and its end was captured. -/
def StaticAt (job : Job) (world : World) (leo : ℤ) : Prop :=
  Static job.conditions job.name ∧ leo = (job.log world).stop

/-- What holds at each point. -/
def PointFolding (job : Job) : Point → World → Prop
  | .seeded checkpoint, world | .connected checkpoint, world =>
    checkpoint = world.database.checkpoint job.tp
  | .opened checkpoint leo, world =>
    checkpoint = world.database.checkpoint job.tp ∧
      (Static job.conditions job.name → leo = (job.log world).stop)
  | .polling leo _ replay, world | .deciding leo _ replay, world => Trails job world leo replay
  | .resetting leo _ _, world => StaticAt job world leo
  | .seeking leo _ replay, world =>
    StaticAt job world leo ∧
      replay.position ≤ PartitionStateMachine.nextOffset (world.database.checkpoint job.tp)
  | .materializing leo _ replay records last, world =>
    (Static job.conditions job.name → leo = (job.log world).stop) ∧
      (replay.resetOccurred = true → Static job.conditions job.name) ∧
      FetchesFrom job.name world (last.1 + 1) ∧
      ∃ position, (job.log world).IsBatch position job.settings.batchSize records ∧
        position ≤ PartitionStateMachine.nextOffset (world.database.checkpoint job.tp)
  | .clamping leo _, world =>
    StaticAt job world leo ∧
      leo ≤ PartitionStateMachine.nextOffset (world.database.checkpoint job.tp)
  | .clampingTo leo target, world =>
    StaticAt job world leo ∧
      leo ≤ PartitionStateMachine.nextOffset (world.database.checkpoint job.tp) ∧
      target = leo - 1
  | _, _ => True

/-- The invariant of the machine. -/
structure Folding (owner : String → TopicPartition) (job : Job) (point : Point) (world : World) :
    Prop where
  owned : Owned owner job point world
  folded : Folded job.settings.json job.tp (job.log world) world.database
  point : PointFolding job point world

section Fold

variable {owner : String → TopicPartition} {job : Job} {world next : World} {leo : ℤ}

/-- The fold goes on from a log that grew. -/
theorem Folded.grows {json : String → Option String} {tp : TopicPartition}
    {log after : OffsetLog Message} {database : Database}
    (hfolded : Folded json tp log database) (hgrows : log.Grows after) :
    Folded json tp after database where
  untrimmed := hgrows.start_eq.trans hfolded.untrimmed
  rows := by
    rw [hfolded.rows]
    unfold replayed
    rw [hgrows.below_eq hfolded.bound]
  nonneg := hfolded.nonneg
  bound := hfolded.bound.trans hgrows.evolves.stop_le

theorem Trails.drift {replay : Replay} {broker : Broker} (htrails : Trails job world leo replay)
    (hdisturb : job.conditions.disturbs world.broker broker) :
    Trails job (world.drift broker) leo replay := by
  refine ⟨fun hstatic ↦ ?_, htrails.2⟩
  have hsame : job.log (world.drift broker) = job.log world := hstatic world.broker broker hdisturb
  rw [hsame]
  exact htrails.1 hstatic

theorem StaticAt.drift {broker : Broker} (hstatic : StaticAt job world leo)
    (hdisturb : job.conditions.disturbs world.broker broker) :
    StaticAt job (world.drift broker) leo := by
  have hsame : job.log (world.drift broker) = job.log world :=
    hstatic.1 world.broker broker hdisturb
  exact ⟨hstatic.1, hsame ▸ hstatic.2⟩

/-- While a call is pending, others keep what holds at the point. -/
theorem PointFolding.drift {point : Point} {broker : Broker}
    (happends : AppendsOnly job.conditions job.name) (hpoint : PointFolding job point world)
    (hdisturb : job.conditions.disturbs world.broker broker) :
    PointFolding job point (world.drift broker) := by
  cases point with
  | opened checkpoint leo =>
    exact ⟨hpoint.1, fun hstatic ↦ (StaticAt.drift ⟨hstatic, hpoint.2 hstatic⟩ hdisturb).2⟩
  | polling leo fuel replay | deciding leo fuel replay => exact Trails.drift hpoint hdisturb
  | resetting leo fuel replay => exact StaticAt.drift hpoint hdisturb
  | seeking leo fuel replay => exact ⟨hpoint.1.drift hdisturb, hpoint.2⟩
  | materializing leo fuel replay records last =>
    obtain ⟨hend, hreset, hfrom, position, hbatch, hposition⟩ := hpoint
    refine ⟨fun hstatic ↦ (StaticAt.drift ⟨hstatic, hend hstatic⟩ hdisturb).2, hreset,
      hfrom, position,
      hbatch.grows (happends _ _ hdisturb), hposition⟩
  | clamping leo replay => exact ⟨hpoint.1.drift hdisturb, hpoint.2⟩
  | clampingTo leo target => exact ⟨hpoint.1.drift hdisturb, hpoint.2⟩
  | _ => exact hpoint

/-- The consumer moved to the start of the log. -/
theorem Trails.seek_start {replay : Replay} (hfolded : Folded job.settings.json job.tp
    (job.log world) world.database)
    (hleo : Static job.conditions job.name → leo = (job.log world).stop)
    (hreset : replay.resetOccurred = true → Static job.conditions job.name)
    (hposition : replay.position ≤
      PartitionStateMachine.nextOffset (world.database.checkpoint job.tp)) :
    Trails job (world.seek (job.log world).start) leo replay := by
  refine ⟨hleo, hreset, hposition, fun fetch hfetch ↦ ?_⟩
  rw [Memory.fetchPosition_seek hfetch, hfolded.untrimmed]
  exact ⟨le_refl 0, hfolded.nonneg⟩

/-- A consumer that did not pass the next offset to replay is told that it is out of range only by
a broker that reports so for no reason. -/
theorem Trails.lose {replay : Replay} (hlost : Static job.conditions job.name ∨
    Genuine job.conditions job.name)
    (hfolded : Folded job.settings.json job.tp (job.log world) world.database)
    (htrails : Trails job world leo replay)
    (hraises : Raises job.settings job.conditions world (.getmany job.name job.settings.batchSize)
      (.kafka .offsetOutOfRange)) : StaticAt job world leo := by
  rcases hlost with hstatic | hgenuine
  · exact ⟨hstatic, htrails.1 hstatic⟩
  · obtain ⟨_, fetch, hfetch, hout⟩ := hraises.resolve_left (hgenuine _)
    obtain ⟨hnonneg, hbound⟩ := htrails.2.2.2 fetch hfetch
    refine absurd ⟨?_, hbound.trans hfolded.bound⟩ hout
    rw [show (world.broker.changelogs job.name).start = 0 from hfolded.untrimmed]
    exact hnonneg

/-- Every step of the machine keeps the fold.
Assumes: others only append to the changelog and leave message ids with their owners, and they
leave it alone altogether if the broker may report a consumer out of range for no reason. -/
theorem folding_step (hname : job.settings.template job.tp = job.name)
    (happends : AppendsOnly job.conditions job.name)
    (hlost : Static job.conditions job.name ∨ Genuine job.conditions job.name)
    (hdisturbs : ∀ broker after, job.conditions.disturbs broker after →
      Attributed owner job.settings broker → Attributed owner job.settings after)
    {point after : Point} (hstep : Step job (point, world) (after, next))
    (hfolding : Folding owner job point world) : Folding owner job after next := by
  obtain ⟨howned, hfolded, hpoint⟩ := hfolding
  refine ⟨owned_step hname hdisturbs hstep howned, ?_, ?_⟩
  · cases hstep with
    | drift _ hdisturb => exact hfolded.grows (happends _ _ hdisturb)
    | seed =>
      unfold Job.log
      rw [World.seed_database, World.seed_broker]
      exact hfolded
    | idle _ hnothing =>
      obtain ⟨idlePolls, rfl⟩ := hnothing.exists_idlePolls
      exact hfolded
    | fetch _ _ hfetches _ =>
      obtain ⟨_, _, _, _, _, _, rfl⟩ := hfetches
      exact hfolded
    | @materialize leo fuel replay records last world database hlast hrun =>
      obtain ⟨_, _, _, position, hbatch, hposition⟩ := hpoint
      have hoffset : 0 ≤ last.1 :=
        (job.log world).start_nonneg.trans
          ((job.log world).bounded last (hbatch.last_mem hlast).1).1
      have hnext := PartitionStateMachine.nextOffset_maxOffset_eq
        (world.database.checkpoint job.tp) hoffset
      rw [← checkpoint_of_run hrun] at hnext
      refine ⟨hfolded.untrimmed, rowsOf_of_run hfolded.rows ?_ hbatch hlast hposition hrun, ?_, ?_⟩
      · intro entry hentry row hrow hid
        rw [← howned.rows row hrow]
        exact howned.fetched _ _ _ _ _ rfl entry hentry _ hid
      · change 0 ≤ PartitionStateMachine.nextOffset (database.checkpoint job.tp)
        rw [hnext]
        exact hfolded.nonneg.trans (le_max_left _ _)
      · change PartitionStateMachine.nextOffset (database.checkpoint job.tp) ≤ _
        rw [hnext]
        exact max_le hfolded.bound (hbatch.last_lt_stop hlast)
    | @clamp leo target world =>
      obtain ⟨⟨_, hstop⟩, hleo, rfl⟩ := hpoint
      have hsame : PartitionStateMachine.nextOffset
          ((world.database.clampCheckpoint job.tp (leo - 1)).checkpoint job.tp) =
          PartitionStateMachine.nextOffset (world.database.checkpoint job.tp) := by
        rw [Database.nextOffset_clampCheckpoint]
        exact le_antisymm hleo (hstop ▸ hfolded.bound)
      refine ⟨hfolded.untrimmed, ?_, ?_, ?_⟩
      · exact hfolded.rows.trans (congrArg _ hsame.symm)
      · exact hfolded.nonneg.trans hsame.ge
      · exact hsame.le.trans hfolded.bound
    | seedUnreached =>
      unfold Job.log
      rw [World.onState_database, World.seed_database]
      change Folded _ _ ((World.seed _ _ _).broker.changelogs job.name) _
      rw [World.seed_broker]
      exact hfolded
    | reveal => exact ⟨hfolded.untrimmed, hfolded.rows, hfolded.nonneg, hfolded.bound⟩
    | _ => exact hfolded
  · cases hstep with
    | drift _ hdisturb => exact hpoint.drift happends hdisturb
    | seed => simp [PointFolding]
    | keepConsumer | connect _ => exact hpoint
    | capture hleo => exact ⟨hpoint, fun _ ↦ hleo⟩
    | openCold =>
      exact .seek_start hfolded hpoint.2 (fun hreset ↦ by cases hreset) hfolded.nonneg
    | openWarm _ =>
      obtain ⟨hstored, hleo⟩ := hpoint
      have hnext := congrArg PartitionStateMachine.nextOffset hstored
      refine ⟨hleo, (fun hreset ↦ by cases hreset), hnext.le, fun fetch hfetch ↦ ?_⟩
      rw [Memory.fetchPosition_seek hfetch]
      exact ⟨hfolded.nonneg.trans hnext.ge, hnext.le⟩
    | idle _ hnothing =>
      obtain ⟨idlePolls, rfl⟩ := hnothing.exists_idlePolls
      exact hpoint
    | lose _ hraises => exact hpoint.lose hlost hfolded hraises
    | readStart => exact ⟨hpoint, hfolded.untrimmed.le.trans hfolded.nonneg⟩
    | reset => exact .seek_start hfolded (fun _ ↦ hpoint.1.2) (fun _ ↦ hpoint.1.1) hpoint.2
    | fetch _ _ hfetches hlast =>
      obtain ⟨fetch, end', hfetch, _, hbatch, hend, rfl⟩ := hfetches
      obtain rfl := Option.some.inj (hlast.symm.trans hend)
      exact ⟨hpoint.1, hpoint.2.1, FetchesFrom.seek _, fetch, hbatch, (hpoint.2.2.2 fetch hfetch).2⟩
    | @materialize leo fuel replay records last world database hlast hrun =>
      obtain ⟨hleo, hreset, hfrom, position, hbatch, _⟩ := hpoint
      have hoffset : 0 ≤ last.1 :=
        (job.log world).start_nonneg.trans
          ((job.log world).bounded last (hbatch.last_mem hlast).1).1
      have hpast : last.1 + 1 ≤ PartitionStateMachine.nextOffset (database.checkpoint job.tp) := by
        rw [checkpoint_of_run hrun]
        exact PartitionStateMachine.lt_nextOffset_maxOffset _ _
      refine ⟨hleo, hreset, hpast, fun fetch hfetch ↦ ?_⟩
      rw [hfrom fetch hfetch]
      exact ⟨by omega, hpast⟩
    | goOn => exact hpoint
    | leaveReset hposition hreset =>
      obtain ⟨hleo, hstatic, hbound, _⟩ := hpoint
      exact ⟨⟨hstatic hreset, hleo (hstatic hreset)⟩, hposition ▸ hbound⟩
    | aim htarget => exact ⟨hpoint.1, hpoint.2, clampTarget_eq htarget⟩
    | _ => trivial

end Fold

end KSQLite.Rehydrate
