import KSQLite.Rehydrate.Folding

/-!
# Mirroring a changelog

A store mirrors the changelog of a partition (`Mirrors`) when its rows of the partition are rows of
retained records, every KSQLite record below its next offset to replay has a row, and that offset
is not past the log end. It is caught up (`CaughtUp`) when no record of the log is missing and the
next offset to replay is past all of them.

As long as nobody else appends KSQLite records to the changelog, every step of an assignment keeps
the mirror, whichever partition is assigned (`mirrors_of_reaches`), and the partition is caught up
when it is revealed `READY` (`caughtUp_of_reaches`). A transaction that commits at a point is a step
of the machine as well, up to the write-back (`exists_reaches_of_run`), so the same holds where an
assignment is cut off.
-/

set_option autoImplicit false
set_option relaxedAutoImplicit false

namespace KSQLite.Rehydrate

open KSQLite.Log KSQLite.Suspension KSQLite.Store

/-- A message that is no KSQLite record. -/
def Recordless (message : Message) : Prop := ksqliteOf message = none

/-- Others append no KSQLite records to a changelog. -/
def SoleWriter (conditions : Conditions) (name : String) : Prop :=
  ∀ broker next, conditions.disturbs broker next →
    (broker.changelogs name).GrowsBy Recordless (next.changelogs name)

/-- Every KSQLite record lies below a bound. -/
def AllBelow (log : OffsetLog Message) (bound : ℤ) : Prop :=
  ∀ entry ∈ log.entries, ¬ Recordless entry.2 → entry.1 < bound

/-- The rows of a partition are rows of retained records. -/
def Grounded (json : String → Option String) (tp : TopicPartition) (log : OffsetLog Message)
    (database : Database) : Prop :=
  ∀ row ∈ database.rowsOf tp, ∃ entry ∈ log.entries, rowOf json tp entry = some row

/-- The changelog of a partition. -/
def changelogOf (settings : Settings) (tp : TopicPartition) (world : World) : OffsetLog Message :=
  world.broker.changelogs (settings.template tp)

/-- The next offset to replay. -/
def nextReplayed (tp : TopicPartition) (world : World) : ℤ :=
  PartitionStateMachine.nextOffset (world.database.checkpoint tp)

/-- A store holds of a changelog what lies below its next offset to replay, and nothing else. -/
structure Mirrors (settings : Settings) (owner : String → TopicPartition) (tp : TopicPartition)
    (world : World) : Prop where
  attributed : Attributed owner settings world.broker
  rows : RowsOwned owner world.database
  grounded : Grounded settings.json tp (changelogOf settings tp world) world.database
  covered : Covered world.database (changelogOf settings tp world) (nextReplayed tp world)
  bounded : nextReplayed tp world ≤ (changelogOf settings tp world).stop

/-- No record of a changelog is missing, and none is left to replay. -/
structure CaughtUp (settings : Settings) (tp : TopicPartition) (world : World) : Prop where
  present : ∀ entry ∈ (changelogOf settings tp world).entries, Present world.database entry
  below : AllBelow (changelogOf settings tp world) (nextReplayed tp world)

/-! ### Growing logs -/

section Growth

variable {log after : OffsetLog Message} {database : Database} {bound : ℤ}

/-- A message that is no KSQLite record is present whatever the rows are. -/
theorem Recordless.present {entry : ℤ × Message} (hentry : Recordless entry.2) :
    Present database entry := by
  intro record hrecord
  rw [hentry] at hrecord
  cases hrecord

theorem AllBelow.grows (hbelow : AllBelow log bound) (hgrows : log.GrowsBy Recordless after) :
    AllBelow after bound := by
  intro entry hentry hrecord
  rcases hgrows.mem hentry with hold | ⟨hnew, _⟩
  · exact hbelow entry hold hrecord
  · exact absurd hnew hrecord

theorem AllBelow.mono {higher : ℤ} (hbelow : AllBelow log bound) (hle : bound ≤ higher) :
    AllBelow log higher :=
  fun entry hentry hrecord ↦ (hbelow entry hentry hrecord).trans_le hle

/-- Every entry of a log lies below its end. -/
theorem allBelow_stop (log : OffsetLog Message) : AllBelow log log.stop :=
  fun entry hentry _ ↦ (log.bounded entry hentry).2

theorem Grounded.grows {json : String → Option String} {tp : TopicPartition}
    (hgrounded : Grounded json tp log database) (hgrows : log.Grows after) :
    Grounded json tp after database := by
  intro row hrow
  obtain ⟨entry, hentry, hrowOf⟩ := hgrounded row hrow
  exact ⟨entry, hgrows.mem hentry, hrowOf⟩

/-- A log of whose KSQLite records none is missing below a bound past all of them. -/
theorem present_of_allBelow (hcovered : Covered database log bound)
    (hbelow : AllBelow log bound) {entry : ℤ × Message} (hentry : entry ∈ log.entries) :
    Present database entry := by
  by_cases hrecord : Recordless entry.2
  · exact hrecord.present
  · exact hcovered entry hentry (hbelow entry hentry hrecord)

theorem SoleWriter.evolvesOnly {conditions : Conditions} {name : String}
    (hsole : SoleWriter conditions name) : EvolvesOnly conditions name :=
  fun broker next hdisturb ↦ (hsole broker next hdisturb).grows.evolves

end Growth

/-! ### Steps -/

/-- In the loop: the position is not past the next offset to replay, or the loop was reset and
replayed nothing since. -/
def Advanced (job : Job) (world : World) (replay : Replay) : Prop :=
  replay.position ≤ nextReplayed job.tp world ∨
    replay.resetOccurred = true ∧ replay.position = replay.resetLogStart ∧
      replay.replayedAfterReset = 0

/-- The log end was captured, no KSQLite record lies past it, and the next offset to replay is
there. -/
def Reached (job : Job) (world : World) : Prop :=
  ∃ leo, world.memory.state.logEndOf job.tp = some leo ∧ AllBelow (job.log world) leo ∧
    leo ≤ nextReplayed job.tp world

/-- What holds at each point besides coverage. -/
def PointMirroring (job : Job) : Point → World → Prop
  | .opened _ leo, world | .resetting leo _ _, world | .clampingTo leo _, world =>
    AllBelow (job.log world) leo
  | .polling leo _ replay, world | .deciding leo _ replay, world =>
    AllBelow (job.log world) leo ∧ Advanced job world replay
  | .seeking leo _ replay, world =>
    AllBelow (job.log world) leo ∧ replay.resetOccurred = true ∧
      replay.position = replay.resetLogStart ∧ replay.replayedAfterReset = 0
  | .materializing leo _ _ records _, world =>
    AllBelow (job.log world) leo ∧ ∀ entry ∈ records, entry ∈ (job.log world).entries
  | .clamping leo replay, world =>
    AllBelow (job.log world) leo ∧ Advanced job world replay ∧ replay.position = leo
  | .revealing .ready, world | .revealed .ready, world => Reached job world
  | _, _ => True

/-- The invariant of the machine. -/
structure Mirroring (owner : String → TopicPartition) (job : Job) (point : Point) (world : World) :
    Prop where
  owned : Owned owner job point world
  coverage : Coverage False job point world
  grounded : Grounded job.settings.json job.tp (job.log world) world.database
  point : PointMirroring job point world

section Steps

variable {owner : String → TopicPartition} {job : Job} {world next : World}

/-- While a call is pending, others keep what holds at the point. -/
theorem PointMirroring.drift {point : Point} {broker : Broker}
    (hsole : SoleWriter job.conditions job.name) (hpoint : PointMirroring job point world)
    (hdisturb : job.conditions.disturbs world.broker broker) :
    PointMirroring job point (world.drift broker) := by
  have hgrows : (job.log world).GrowsBy Recordless (job.log (world.drift broker)) :=
    hsole _ _ hdisturb
  cases point with
  | opened checkpoint leo => exact AllBelow.grows hpoint hgrows
  | polling leo fuel replay => exact ⟨hpoint.1.grows hgrows, hpoint.2⟩
  | deciding leo fuel replay => exact ⟨hpoint.1.grows hgrows, hpoint.2⟩
  | resetting leo fuel replay => exact AllBelow.grows hpoint hgrows
  | seeking leo fuel replay => exact ⟨hpoint.1.grows hgrows, hpoint.2⟩
  | materializing leo fuel replay records last =>
    exact ⟨hpoint.1.grows hgrows, fun entry hentry ↦ hgrows.grows.mem (hpoint.2 entry hentry)⟩
  | clamping leo replay => exact ⟨hpoint.1.grows hgrows, hpoint.2⟩
  | clampingTo leo target => exact AllBelow.grows hpoint hgrows
  | revealing status =>
    cases status with
    | ready =>
      obtain ⟨leo, hleo, hbelow, hle⟩ := hpoint
      exact ⟨leo, hleo, hbelow.grows hgrows, hle⟩
    | _ => trivial
  | revealed status =>
    cases status with
    | ready =>
      obtain ⟨leo, hleo, hbelow, hle⟩ := hpoint
      exact ⟨leo, hleo, hbelow.grows hgrows, hle⟩
    | _ => trivial
  | _ => trivial

/-- No clamp is due where the loop is left after a reset: the log end is reached. -/
theorem Advanced.le_of_keep {leo : ℤ} {replay : Replay} (hprogress : Advanced job world replay)
    (hposition : replay.position = leo)
    (hkeep : clampTarget (world.database.checkpoint job.tp) leo replay.resetLogStart
      replay.replayedAfterReset = none) : leo ≤ nextReplayed job.tp world := by
  rcases hprogress with hle | ⟨_, hstart, hnone⟩
  · exact hposition ▸ hle
  · unfold clampTarget at hkeep
    split_ifs at hkeep with hhigh hgap
    exact absurd ⟨hnone, hstart.symm.trans hposition⟩ hgap

/-- Every step of the machine keeps what holds at its points besides coverage. -/
theorem pointMirroring_step (hsole : SoleWriter job.conditions job.name) {point after : Point}
    (hstep : Step job (point, world) (after, next)) (hcoverage : Coverage False job point world)
    (hpoint : PointMirroring job point world) : PointMirroring job after next := by
  cases hstep with
  | drift _ hdisturb => exact hpoint.drift hsole hdisturb
  | capture hleo =>
    subst hleo
    exact allBelow_stop (job.log world)
  | openCold => exact ⟨hpoint, Or.inl (by
      have hstored : none = world.database.checkpoint job.tp := hcoverage.point.1
      change 0 ≤ PartitionStateMachine.nextOffset (world.database.checkpoint job.tp)
      rw [← hstored]
      exact le_refl 0)⟩
  | @openWarm checkpoint leo world _ => exact ⟨hpoint, Or.inl (by
      have hstored : some checkpoint = world.database.checkpoint job.tp := hcoverage.point.1
      change checkpoint + 1 ≤ PartitionStateMachine.nextOffset (world.database.checkpoint job.tp)
      rw [← hstored]
      exact le_refl _)⟩
  | idle _ hnothing =>
    obtain ⟨idlePolls, rfl⟩ := hnothing.exists_idlePolls
    exact hpoint
  | lose _ _ => exact hpoint.1
  | readStart => exact ⟨hpoint, rfl, rfl, rfl⟩
  | reset => exact ⟨hpoint.1, Or.inr hpoint.2⟩
  | fetch _ _ hfetches _ =>
    obtain ⟨_, _, _, _, hbatch, _, rfl⟩ := hfetches
    exact ⟨hpoint.1, fun entry hentry ↦ (hbatch.mem hentry).1⟩
  | @materialize leo fuel replay records last world database _ hrun =>
    refine ⟨hpoint.1, Or.inl ?_⟩
    change last.1 + 1 ≤ PartitionStateMachine.nextOffset (database.checkpoint job.tp)
    rw [checkpoint_of_run hrun]
    exact PartitionStateMachine.lt_nextOffset_maxOffset _ _
  | goOn => exact hpoint
  | @leave leo fuel replay world hposition hreset =>
    refine ⟨leo, ?_, hpoint.1, ?_⟩
    · simpa [PartitionStateMachine.markReady] using hcoverage.point.1.1
    · rcases hpoint.2 with hle | ⟨hoccurred, _⟩
      · exact hposition ▸ hle
      · rw [hreset] at hoccurred
        cases hoccurred
  | leaveReset hposition _ => exact ⟨hpoint.1, hpoint.2, hposition⟩
  | @keep leo replay world hkeep =>
    refine ⟨leo, ?_, hpoint.1, hpoint.2.1.le_of_keep hpoint.2.2 hkeep⟩
    simpa [PartitionStateMachine.markReady] using hcoverage.point.1.1
  | aim _ => exact hpoint.1
  | @clamp leo target world =>
    obtain ⟨hcaptured, _, rfl⟩ := hcoverage.point
    refine ⟨leo, ?_, hpoint, ?_⟩
    · simpa [PartitionStateMachine.markReady] using hcaptured.1
    · unfold nextReplayed
      simp only [World.onState_database, World.commit_database, Database.nextOffset_clampCheckpoint]
      exact le_refl leo
  | @reveal status world =>
    cases status with
    | ready => exact hpoint
    | _ => trivial
  | _ => trivial

/-- The rows after a batch of retained records are rows of retained records. -/
theorem Grounded.run {json : String → Option String} {tp : TopicPartition}
    {log : OffsetLog Message} {records : List (ℤ × Message)} {offset : ℤ}
    {database committed : Database} (hgrounded : Grounded json tp log database)
    (hrecords : ∀ entry ∈ records, entry ∈ log.entries)
    (hrun : (Work.materializeBatch tp records offset).run json database = .ok committed) :
    Grounded json tp log committed := by
  obtain ⟨_, rfl⟩ := run_materializeBatch_eq_ok.mp hrun
  intro row hrow
  obtain ⟨hmem, hsource⟩ := Database.mem_rowsOf.mp hrow
  change row ∈ (Database.insertRows _ _).records at hmem
  rw [Database.insertRows_records] at hmem
  rcases mem_insertAll hmem with hold | hnew
  · exact hgrounded row (Database.mem_rowsOf.mpr ⟨hold, hsource⟩)
  · obtain ⟨entry, hentry, hrowOf⟩ := List.mem_filterMap.mp hnew
    exact ⟨entry, hrecords entry hentry, hrowOf⟩

/-- Every step of the machine keeps the mirror.
Assumes: the changelog of the job is that of its partition. -/
theorem mirroring_step (hname : job.settings.template job.tp = job.name)
    (hsole : SoleWriter job.conditions job.name)
    (hdisturbs : ∀ broker after, job.conditions.disturbs broker after →
      Attributed owner job.settings broker → Attributed owner job.settings after)
    {point after : Point} (hstep : Step job (point, world) (after, next))
    (hmirroring : Mirroring owner job point world) : Mirroring owner job after next where
  owned := owned_step hname hdisturbs hstep hmirroring.owned
  coverage := coverage_step hsole.evolvesOnly False.elim hstep hmirroring.coverage
  point := pointMirroring_step hsole hstep hmirroring.coverage hmirroring.point
  grounded := by
    have hlog : Grounded job.settings.json job.tp (job.log next) world.database := by
      rcases changelogs_step hstep with hsame | hdisturb
      · unfold Job.log
        rw [hsame]
        exact hmirroring.grounded
      · exact hmirroring.grounded.grows (hsole _ _ hdisturb).grows
    rcases records_step hstep with hsame | ⟨leo, fuel, replay, records, last, rfl, hrun⟩
    · intro row hrow
      refine hlog row ?_
      unfold Database.rowsOf at hrow ⊢
      rwa [hsame] at hrow
    · have hgrows : (job.log world).Grows (job.log next) := by
        rcases changelogs_step hstep with hsame | hdisturb
        · unfold Job.log
          rw [hsame]
          exact .refl _
        · exact (hsole _ _ hdisturb).grows
      exact (hmirroring.grounded.run hmirroring.point.2 hrun).grows hgrows

end Steps

/-! ### Assignments -/

section Assignments

variable {settings : Settings} {owner : String → TopicPartition} {tp : TopicPartition} {job : Job}
  {world next : World}

/-- A mirror depends on the database and the changelogs only. -/
theorem Mirrors.congr (hmirrors : Mirrors settings owner tp world)
    (hdatabase : next.database = world.database)
    (hchangelogs : next.broker.changelogs = world.broker.changelogs) :
    Mirrors settings owner tp next := by
  have hlog : changelogOf settings tp next = changelogOf settings tp world :=
    congrFun hchangelogs _
  have hbound : nextReplayed tp next = nextReplayed tp world := by
    unfold nextReplayed
    rw [hdatabase]
  refine ⟨?_, ?_, ?_, ?_, ?_⟩
  · unfold Attributed
    rw [hchangelogs]
    exact hmirrors.attributed
  · rw [hdatabase]
    exact hmirrors.rows
  · rw [hlog, hdatabase]
    exact hmirrors.grounded
  · rw [hlog, hdatabase, hbound]
    exact hmirrors.covered
  · rw [hlog, hbound]
    exact hmirrors.bounded

theorem CaughtUp.congr (hcaught : CaughtUp settings tp world)
    (hdatabase : next.database = world.database)
    (hchangelogs : next.broker.changelogs = world.broker.changelogs) :
    CaughtUp settings tp next := by
  have hlog : changelogOf settings tp next = changelogOf settings tp world :=
    congrFun hchangelogs _
  refine ⟨?_, ?_⟩
  · rw [hlog, hdatabase]
    exact hcaught.present
  · unfold nextReplayed
    rw [hlog, hdatabase]
    exact hcaught.below

/-- A store with an empty database mirrors every changelog. -/
theorem mirrors_of_empty (hattributed : Attributed owner settings world.broker)
    (hempty : world.database = .empty) : Mirrors settings owner tp world := by
  have hbound : nextReplayed tp world = 0 := by
    unfold nextReplayed
    rw [hempty]
    rfl
  have hstart := (changelogOf settings tp world).start_nonneg
  refine ⟨hattributed, ?_, ?_, ?_, ?_⟩
  · rw [hempty]
    exact fun _ hrow ↦ absurd hrow List.not_mem_nil
  · rw [hempty]
    exact fun _ hrow ↦ absurd hrow List.not_mem_nil
  · rw [hbound]
    exact (covered_start _ _).of_le hstart
  · rw [hbound]
    exact hstart.trans (changelogOf settings tp world).start_le_stop

/-- A mirror of a changelog mirrors what the changelog grew to. -/
theorem Mirrors.grows (hmirrors : Mirrors settings owner tp world)
    (hattributed : Attributed owner settings next.broker)
    (hdatabase : next.database = world.database)
    (hgrows : (changelogOf settings tp world).Grows (changelogOf settings tp next)) :
    Mirrors settings owner tp next := by
  have hbound : nextReplayed tp next = nextReplayed tp world := by
    unfold nextReplayed
    rw [hdatabase]
  refine ⟨hattributed, ?_, ?_, ?_, ?_⟩
  · rw [hdatabase]
    exact hmirrors.rows
  · rw [hdatabase]
    exact hmirrors.grounded.grows hgrows
  · rw [hdatabase, hbound]
    exact hmirrors.covered.evolves hgrows.evolves hmirrors.bounded
  · rw [hbound]
    exact hmirrors.bounded.trans hgrows.evolves.stop_le

/-- A store that is caught up with a changelog is caught up with what it grew to by foreign
messages. -/
theorem CaughtUp.grows (hcaught : CaughtUp settings tp world)
    (hdatabase : next.database = world.database)
    (hgrows : (changelogOf settings tp world).GrowsBy Recordless (changelogOf settings tp next)) :
    CaughtUp settings tp next where
  present := by
    intro entry hentry
    rcases hgrows.mem hentry with hold | ⟨hnew, _⟩
    · rw [hdatabase]
      exact hcaught.present entry hold
    · exact hnew.present
  below := by
    unfold nextReplayed
    rw [hdatabase]
    exact hcaught.below.grows hgrows

/-- Others append foreign records to the changelog of a partition. -/
theorem Mirrors.disturb {conditions : Conditions} {broker : Broker}
    (hmirrors : Mirrors settings owner tp world)
    (hsole : SoleWriter conditions (settings.template tp))
    (hdisturbs : ∀ broker after, conditions.disturbs broker after →
      Attributed owner settings broker → Attributed owner settings after)
    (hdisturb : conditions.disturbs world.broker broker) :
    Mirrors settings owner tp (world.drift broker) :=
  hmirrors.grows (hdisturbs _ _ hdisturb hmirrors.attributed) rfl (hsole _ _ hdisturb).grows

theorem CaughtUp.disturb {conditions : Conditions} {broker : Broker}
    (hcaught : CaughtUp settings tp world)
    (hsole : SoleWriter conditions (settings.template tp))
    (hdisturb : conditions.disturbs world.broker broker) :
    CaughtUp settings tp (world.drift broker) :=
  hcaught.grows rfl (hsole _ _ hdisturb)

/-- An assignment of a partition starts inside the machine. -/
theorem Mirrors.mirroring (hname : job.settings.template job.tp = job.name)
    (hmirrors : Mirrors job.settings owner job.tp world) :
    Mirroring owner job .checking world := by
  have hlog : changelogOf job.settings job.tp world = job.log world :=
    congrArg world.broker.changelogs hname
  refine ⟨⟨hmirrors.attributed, hmirrors.rows, fun _ _ _ _ _ hpoint ↦ by cases hpoint⟩,
    ⟨⟨?_, ?_⟩, trivial⟩, ?_, trivial⟩
  · rw [← hlog]
    exact hmirrors.covered
  · rw [← hlog]
    exact Or.inl hmirrors.bounded
  · rw [← hlog]
    exact hmirrors.grounded

theorem Mirroring.mirrors {point : Point} (hname : job.settings.template job.tp = job.name)
    (hmirroring : Mirroring owner job point world) :
    Mirrors job.settings owner job.tp world := by
  have hlog : changelogOf job.settings job.tp world = job.log world :=
    congrArg world.broker.changelogs hname
  obtain ⟨hcovered, hbounded⟩ := hmirroring.coverage.checkpoint
  refine ⟨hmirroring.owned.attributed, hmirroring.owned.rows, ?_, ?_, ?_⟩
  · rw [hlog]
    exact hmirroring.grounded
  · rw [hlog]
    exact hcovered
  · rw [hlog]
    exact hbounded.resolve_right id

/-- A step of the machine for another partition keeps the mirror. -/
theorem mirrors_step_of_ne (hother : tp ≠ job.tp)
    (hsole : SoleWriter job.conditions (job.settings.template tp)) {point after : Point}
    (hstep : Step job (point, world) (after, next)) (howned : Owned owner job after next)
    (hmirrors : Mirrors job.settings owner tp world) : Mirrors job.settings owner tp next := by
  have hframe := frame_step hstep
  have hbound : nextReplayed tp next = nextReplayed tp world := by
    unfold nextReplayed
    rw [hframe.checkpoint tp hother]
  have hlog : (changelogOf job.settings tp world).GrowsBy Recordless
      (changelogOf job.settings tp next) := by
    rcases changelogs_step hstep with hsame | hdisturb
    · unfold changelogOf
      rw [hsame]
      exact .refl _ _
    · exact hsole _ _ hdisturb
  refine ⟨howned.attributed, howned.rows, ?_, ?_, ?_⟩
  · unfold Grounded
    rw [hframe.rowsOf_eq hother]
    exact hmirrors.grounded.grows hlog.grows
  · rw [hbound]
    exact (hmirrors.covered.mono hframe.records_prefix).evolves hlog.grows.evolves hmirrors.bounded
  · rw [hbound]
    exact hmirrors.bounded.trans hlog.grows.evolves.stop_le

/-- What a store that mirrors a changelog assumes of others while it assigns partitions. -/
structure Shared (settings : Settings) (conditions : Conditions) (owner : String → TopicPartition)
    (tp : TopicPartition) : Prop where
  sole : SoleWriter conditions (settings.template tp)
  attributed : ∀ broker after, conditions.disturbs broker after →
    Attributed owner settings broker → Attributed owner settings after

/-- Wherever the assignment of a partition gets, the store mirrors the changelog, whichever
partition is assigned.
Assumes: the changelog of the job is that of its partition. -/
theorem mirrors_of_reaches (hname : job.settings.template job.tp = job.name)
    (hshared : Shared job.settings job.conditions owner tp)
    (hmirrors : Mirrors job.settings owner tp world) {point : Point}
    (hreaches : Reaches job (.checking, world) (point, next)) :
    Mirrors job.settings owner tp next := by
  by_cases hother : tp = job.tp
  · subst hother
    have hmirroring : Mirroring owner job point next :=
      hreaches.invariant (Mirroring owner job)
        (mirroring_step hname (hname ▸ hshared.sole) hshared.attributed) (hmirrors.mirroring hname)
    exact hmirroring.mirrors hname
  · have horigin : Owned owner job .checking world :=
      ⟨hmirrors.attributed, hmirrors.rows, fun _ _ _ _ _ hpoint ↦ by cases hpoint⟩
    have hboth : Owned owner job point next ∧ Mirrors job.settings owner tp next :=
      hreaches.invariant
        (fun point world ↦ Owned owner job point world ∧ Mirrors job.settings owner tp world)
        (fun hstep hnow ↦ by
          have howned := owned_step hname hshared.attributed hstep hnow.1
          exact ⟨howned, mirrors_step_of_ne hother hshared.sole hstep howned hnow.2⟩)
        ⟨horigin, hmirrors⟩
    exact hboth.2

/-- A partition that is about to be revealed `READY`, or was just revealed so, is caught up, and
its captured log end is past every KSQLite record.
Assumes: the changelog of the job is that of its partition. -/
theorem caughtUp_of_reaches (hname : job.settings.template job.tp = job.name)
    (hshared : Shared job.settings job.conditions owner job.tp)
    (hmirrors : Mirrors job.settings owner job.tp world) {point : Point}
    (hready : point = .revealing .ready ∨ point = .revealed .ready)
    (hreaches : Reaches job (.checking, world) (point, next)) :
    CaughtUp job.settings job.tp next ∧ ∃ leo, next.memory.state.logEndOf job.tp = some leo ∧
      AllBelow (changelogOf job.settings job.tp next) leo := by
  have hlog : changelogOf job.settings job.tp next = job.log next :=
    congrArg next.broker.changelogs hname
  have hmirroring : Mirroring owner job point next :=
    hreaches.invariant (Mirroring owner job)
      (mirroring_step hname (hname ▸ hshared.sole) hshared.attributed) (hmirrors.mirroring hname)
  have hreached : Reached job next := by
    rcases hready with rfl | rfl
    · exact hmirroring.point
    · exact hmirroring.point
  have hcovered : ∃ leo, Captured False job next leo ∧
      Covered next.database (job.log next) leo := by
    rcases hready with rfl | rfl
    · exact hmirroring.coverage.point
    · exact hmirroring.coverage.point
  obtain ⟨leo, hleo, hbelow, hle⟩ := hreached
  obtain ⟨captured, hcaptured, hcovered⟩ := hcovered
  obtain rfl : captured = leo := Option.some.inj (hcaptured.1.symm.trans hleo)
  rw [← hlog] at hbelow hcovered
  refine ⟨⟨fun entry hentry ↦ present_of_allBelow hcovered hbelow hentry, ?_⟩, captured, hleo,
    hbelow⟩
  exact hbelow.mono hle

/-! ### Commits -/

/-- The last record of a batch is the last one. -/
theorem Reaches.getLast? {origin : World} {leo : ℤ} {fuel : ℕ} {replay : Replay}
    {records : List (ℤ × Message)} {last : ℤ × Message}
    (hreaches : Reaches job (.checking, origin) (.materializing leo fuel replay records last,
      world)) : records.getLast? = some last := by
  have hinvariant := hreaches.invariant
    (fun point _ ↦ ∀ leo fuel replay records last,
      point = .materializing leo fuel replay records last → records.getLast? = some last)
    (fun hstep hbefore ↦ by
      intro leo fuel replay records last hpoint
      cases hstep with
      | drift _ _ => exact hbefore _ _ _ _ _ hpoint
      | fetch _ _ _ hlast =>
        cases hpoint
        exact hlast
      | _ => cases hpoint)
    (fun _ _ _ _ _ hpoint ↦ by cases hpoint)
  exact hinvariant _ _ _ _ _ rfl

/-- A transaction that commits at a point is a step of the machine, up to the write-back. -/
theorem exists_reaches_of_run {origin : World} {point : Point} {work : Work} {database : Database}
    (hreaches : Reaches job (.checking, origin) (point, world))
    (hawaits : Awaits job.settings job.tp job.name point (.transaction work))
    (hrun : work.run job.settings.json world.database = .ok database) :
    ∃ after next, Reaches job (.checking, origin) (after, next) ∧ next.database = database ∧
      next.broker = world.broker := by
  cases hawaits with
  | materialize =>
    exact ⟨_, _, hreaches.tail (.materialize (Reaches.getLast? hreaches) hrun), rfl, rfl⟩
  | clamp =>
    cases hrun
    exact ⟨_, _, hreaches.tail .clamp, rfl, rfl⟩
  | reveal =>
    cases hrun
    exact ⟨_, _, hreaches.tail .reveal, rfl, rfl⟩

end Assignments

end KSQLite.Rehydrate
